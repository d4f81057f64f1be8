import LakeOS.Library.Runs
import LakeOS.Model.Vfm

/-!
# The cache of vnodes

`VFS_lookup` compares names with `strcmp`, which stops at the end of the shorter string:
the first cached child whose name is a prefix of the name looked up, or the other way
round, is taken for it.  The drivers of virtual files and of devices compare names in the
same way.  The cache gives the answer of the driver exactly when that child has the name
itself.
-/

set_option autoImplicit false

namespace LakeOS.Analysis

open LakeOS.Library LakeOS.Model

/-! ## Comparing names -/

theorem memcmp_eq_zero_iff (a b : CString) (n : ℕ) (ha : n ≤ a.length) (hb : n ≤ b.length) :
    memcmp a b n = 0 ↔ a.take n = b.take n := by
  induction a generalizing b n with
  | nil =>
      obtain rfl := Nat.le_zero.mp ha
      exact iff_of_true rfl rfl
  | cons x a ih =>
      cases b with
      | nil =>
          obtain rfl := Nat.le_zero.mp hb
          exact iff_of_true rfl rfl
      | cons y b =>
          cases n with
          | zero => exact iff_of_true rfl rfl
          | succ n =>
              have hrest := ih b n (Nat.le_of_succ_le_succ ha) (Nat.le_of_succ_le_succ hb)
              rw [List.take_succ_cons, List.take_succ_cons, List.cons_eq_cons, memcmp]
              by_cases hxy : x = y
              · simp [hxy, hrest, BitVec.lt_irrefl]
              · have hne : x.toNat ≠ y.toNat := fun heq => hxy (BitVec.eq_of_toNat_eq heq)
                refine iff_of_false ?_ fun h => hxy h.1
                split
                next => decide
                next hlt =>
                  rw [BitVec.lt_def] at hlt
                  have hgt : y < x := BitVec.lt_def.mpr (by omega)
                  rw [if_pos hgt]
                  decide

/-- INTERNAL: the comparison stops at the end of the shorter name.
SRCLINE: strcmp.c:3-7 -/
theorem strcmp_eq_zero_iff (a b : CString) : strcmp a b = 0 ↔ a <+: b ∨ b <+: a := by
  unfold strcmp
  obtain hlt | hge := Nat.lt_or_ge a.length b.length
  · rw [if_pos hlt, memcmp_eq_zero_iff a b _ le_rfl hlt.le, List.take_length,
      ← List.prefix_iff_eq_take]
    refine ⟨Or.inl, fun h => h.elim id fun hpre => ?_⟩
    exact absurd hpre.length_le (Nat.not_le_of_gt hlt)
  · rw [if_neg (Nat.not_lt_of_ge hge), memcmp_eq_zero_iff a b _ hge le_rfl, List.take_length,
      eq_comm, ← List.prefix_iff_eq_take]
    refine ⟨Or.inr, fun h => h.elim (fun hpre => ?_) id⟩
    exact hpre.eq_of_length_le hge ▸ List.prefix_rfl

/-- INTERNAL: `VFM_lookup` compares with `strcmp`, too. -/
theorem vfmLookup_eq_some {names : List CString} {dir file : VfmNode} {name : CString}
    (h : vfmLookup names dir name = some file) :
    dir = .root ∧ ∃ i, strcmp (names.getD i []) name = 0 ∧ file = .file i := by
  unfold vfmLookup at h
  split at h
  next => cases h
  next hroot =>
    obtain ⟨i, hfind, rfl⟩ := Option.map_eq_some_iff.mp h
    exact ⟨not_not.mp hroot, i, by simpa using List.find?_some hfind, rfl⟩

section

variable {H F δ : Type}

/-! ## The cache -/

/-- `f_NodeName` of a vnode. -/
def nodeName (node : VfsNode H F δ) (volumes : δ) : CString :=
  node.driver.fNodeName node.handle volumes

/-- The driver of the directory finds the file by the name it has. -/
def FoundByName (s : Vfs H F δ) (dir node : VfsNode H F δ) : Prop :=
  dir.driver.fLookup dir.handle (nodeName node s.volumes) s.volumes = some node.handle

/-- The driver of the directory finds it by no name: another file system is mounted there. -/
def MountPoint (s : Vfs H F δ) (dir node : VfsNode H F δ) : Prop :=
  ∀ name, dir.driver.fLookup dir.handle name s.volumes ≠ some node.handle

/-- The children of a vnode are mount points and files that its driver finds by the names
they have. -/
def CacheSound (s : Vfs H F δ) : Prop :=
  ∀ (parent : ℕ) (dir : VfsNode H F δ), s.nodes[parent]? = some dir → ∀ c ∈ dir.children,
    ∃ node : VfsNode H F δ, s.nodes[c]? = some node ∧
      (FoundByName s dir node ∨ MountPoint s dir node)

/-- A cached child is compared equal: its name is a prefix of the name looked up, or the
other way round. -/
def comparable (s : Vfs H F δ) (name : CString) (child : ℕ) : Bool :=
  match s.nodes[child]? with
  | none => false
  | some node =>
      (nodeName node s.volumes).isPrefixOf name || name.isPrefixOf (nodeName node s.volumes)

theorem nodeMatches_eq (s : Vfs H F δ) (name : CString) (child : ℕ) :
    nodeMatches s name child = comparable s name child := by
  unfold nodeMatches comparable
  cases s.nodes[child]? with
  | none => rfl
  | some node =>
      rw [Bool.eq_iff_iff, beq_iff_eq, strcmp_eq_zero_iff, Bool.or_eq_true,
        List.isPrefixOf_iff_prefix, List.isPrefixOf_iff_prefix]
      rfl

/-- The state after `VFS_lookup` of a name in a directory. -/
def lookupStep (c : ℕ × CString) (s : Vfs H F δ) : Vfs H F δ := (vfsLookup s c.1 c.2).2

/-- `VFS_lookup` gives the file of that name which the driver finds, `NULL` if it finds
none, and a second lookup of the name gives the same and changes nothing. -/
def LookupAgrees (c : ℕ × CString) (s : Vfs H F δ) : Prop :=
  ∀ dir, s.nodes[c.1]? = some dir →
    (match dir.driver.fLookup dir.handle c.2 s.volumes with
      | none => (vfsLookup s c.1 c.2).1 = none
      | some handle => ∃ vnode node, (vfsLookup s c.1 c.2).1 = some vnode ∧
          (lookupStep c s).nodes[vnode]? = some node ∧ node.handle = handle ∧
          nodeName node (lookupStep c s).volumes = c.2) ∧
    vfsLookup (lookupStep c s) c.1 c.2 = vfsLookup s c.1 c.2

/-- The first child that compares equal, if there is one, has the name itself and is no mount
point; and what the driver finds, if there is none, has the name itself. -/
structure NameDecides (c : ℕ × CString) (s : Vfs H F δ) : Prop where
  cached : ∀ dir child node, s.nodes[c.1]? = some dir →
    dir.children.find? (comparable s c.2) = some child → s.nodes[child]? = some node →
    nodeName node s.volumes = c.2 ∧ ¬ MountPoint s dir node
  found : ∀ dir handle, s.nodes[c.1]? = some dir →
    dir.children.find? (comparable s c.2) = none →
    dir.driver.fLookup dir.handle c.2 s.volumes = some handle →
    dir.driver.fNodeName handle s.volumes = c.2

variable {s : Vfs H F δ} {parent : ℕ} {name : CString} {dir : VfsNode H F δ}

/-- INTERNAL: the three outcomes of a lookup.
SRCLINE: vfs.c:218-232 -/
theorem vfsLookup_cases (hdir : s.nodes[parent]? = some dir) (name : CString) :
    (∃ child, dir.children.find? (comparable s name) = some child ∧
      vfsLookup s parent name = (some child, s)) ∨
    (dir.children.find? (comparable s name) = none ∧
      dir.driver.fLookup dir.handle name s.volumes = none ∧
      vfsLookup s parent name = (none, s)) ∨
    ∃ handle, dir.children.find? (comparable s name) = none ∧
      dir.driver.fLookup dir.handle name s.volumes = some handle ∧
      vfsLookup s parent name = (some s.nodes.length,
        vfsInsertVnode (vfsMakeVnode s dir handle).2 parent s.nodes.length) := by
  have hmatch : nodeMatches s name = comparable s name := funext (nodeMatches_eq s name)
  unfold vfsLookup
  rw [hdir, ← hmatch]
  dsimp only
  cases hfind : dir.children.find? (nodeMatches s name) with
  | some child => exact .inl ⟨child, rfl, rfl⟩
  | none =>
      right
      cases hlook : dir.driver.fLookup dir.handle name s.volumes with
      | none => exact .inl ⟨rfl, rfl, rfl⟩
      | some handle => exact .inr ⟨handle, rfl, rfl, rfl⟩

/-- The vnodes after a new child was inserted. -/
def withChild (s : Vfs H F δ) (parent : ℕ) (dir : VfsNode H F δ) (handle : H) : Vfs H F δ :=
  vfsInsertVnode (vfsMakeVnode s dir handle).2 parent s.nodes.length

variable {handle : H}

/-- INTERNAL: the old vnodes stay, but for the child that the parent gets. -/
theorem withChild_old {i : ℕ} (hi : i < s.nodes.length) :
    (withChild s parent dir handle).nodes[i]? = s.nodes[i]?.map fun node =>
      if parent = i then { node with children := node.children ++ [s.nodes.length] }
      else node := by
  unfold withChild vfsInsertVnode vfsMakeVnode
  rw [List.getElem?_modify, List.getElem?_append_left hi]
  rfl

theorem withChild_new (hdir : s.nodes[parent]? = some dir) (handle : H) :
    (withChild s parent dir handle).nodes[s.nodes.length]? =
      some { handle := handle, driver := dir.driver, children := [] } := by
  have hlt : parent < s.nodes.length := (List.getElem?_eq_some_iff.mp hdir).1
  unfold withChild vfsInsertVnode vfsMakeVnode
  rw [List.getElem?_modify, List.getElem?_concat_length]
  simp [hlt.ne]

theorem withChild_parent (hdir : s.nodes[parent]? = some dir) :
    (withChild s parent dir handle).nodes[parent]? =
      some { dir with children := dir.children ++ [s.nodes.length] } := by
  rw [withChild_old (List.getElem?_eq_some_iff.mp hdir).1, hdir]
  simp

/-- INTERNAL: every vnode keeps its handle and its driver. -/
theorem withChild_keeps (parent : ℕ) (dir : VfsNode H F δ) (handle : H) {i : ℕ}
    {node : VfsNode H F δ} (hnode : s.nodes[i]? = some node) :
    ∃ node', (withChild s parent dir handle).nodes[i]? = some node' ∧
      node'.handle = node.handle ∧ node'.driver = node.driver ∧
      nodeName node' s.volumes = nodeName node s.volumes := by
  rw [withChild_old (List.getElem?_eq_some_iff.mp hnode).1, hnode]
  refine ⟨_, rfl, ?_, ?_, ?_⟩ <;> split <;> rfl

theorem comparable_withChild {i : ℕ} (hi : i < s.nodes.length) :
    comparable (withChild s parent dir handle) name i = comparable s name i := by
  obtain ⟨node, hnode⟩ : ∃ node, s.nodes[i]? = some node := ⟨_, List.getElem?_eq_getElem hi⟩
  obtain ⟨node', hnode', -, -, hname⟩ :=
    withChild_keeps parent dir handle hnode
  unfold comparable
  rw [hnode, hnode']
  dsimp only
  rw [← hname]
  rfl

theorem CacheSound.child_lt (h : CacheSound s) (hdir : s.nodes[parent]? = some dir) {c : ℕ}
    (hc : c ∈ dir.children) : c < s.nodes.length := by
  obtain ⟨node, hnode, -⟩ := h parent dir hdir c hc
  exact (List.getElem?_eq_some_iff.mp hnode).1

/-- INTERNAL: every vnode is an old one, perhaps with the new child, or the new child. -/
theorem withChild_cases (hdir : s.nodes[parent]? = some dir) {i : ℕ} {node : VfsNode H F δ}
    (hnode : (withChild s parent dir handle).nodes[i]? = some node) :
    (∃ node₀, s.nodes[i]? = some node₀ ∧ node.handle = node₀.handle ∧
      node.driver = node₀.driver ∧
      ∀ c ∈ node.children, c ∈ node₀.children ∨ parent = i ∧ c = s.nodes.length) ∨
    node = { handle := handle, driver := dir.driver, children := [] } := by
  have hlt := (List.getElem?_eq_some_iff.mp hnode).1
  simp only [withChild, vfsInsertVnode, vfsMakeVnode, List.length_modify, List.length_append,
    List.length_singleton] at hlt
  obtain hlt | rfl := Nat.lt_succ_iff_lt_or_eq.mp hlt
  · left
    rw [withChild_old hlt, Option.map_eq_some_iff] at hnode
    obtain ⟨node₀, hnode₀, rfl⟩ := hnode
    refine ⟨node₀, hnode₀, ?_, ?_, fun c hc => ?_⟩
    · split <;> rfl
    · split <;> rfl
    · split at hc
      next hparent =>
        exact (List.mem_append.mp hc).imp_right fun hnew => ⟨hparent, List.mem_singleton.mp hnew⟩
      next => exact .inl hc
  · rw [withChild_new hdir] at hnode
    exact .inr (Option.some.inj hnode).symm

/-- INTERNAL: a child that the driver found by its name keeps the cache sound. -/
theorem CacheSound.withChild (h : CacheSound s) (hdir : s.nodes[parent]? = some dir)
    (hlook : dir.driver.fLookup dir.handle name s.volumes = some handle)
    (hname : dir.driver.fNodeName handle s.volumes = name) :
    CacheSound (withChild s parent dir handle) := by
  intro i dir' hdir' c hc
  obtain ⟨dir₀, hdir₀, hhandle, hdriver, hchildren⟩ | rfl := withChild_cases hdir hdir'
  · obtain hin | ⟨rfl, rfl⟩ := hchildren c hc
    · obtain ⟨node, hnode, hkind⟩ := h i dir₀ hdir₀ c hin
      obtain ⟨node', hnode', hhandle', -, hname'⟩ := withChild_keeps parent dir handle hnode
      refine ⟨node', hnode', hkind.imp (fun hfound => ?_) fun hmount name' => ?_⟩
      · rw [FoundByName, hdriver, hhandle, hhandle', ← hfound]
        exact congrArg (dir₀.driver.fLookup dir₀.handle · s.volumes) hname'
      · rw [hdriver, hhandle, hhandle']
        exact hmount name'
    · obtain rfl := Option.some.inj (hdir₀.symm.trans hdir)
      refine ⟨_, withChild_new hdir _, .inl ?_⟩
      rw [FoundByName, hdriver, hhandle, ← hlook]
      exact congrArg (dir₀.driver.fLookup dir₀.handle · s.volumes) hname
  · exact absurd hc List.not_mem_nil

theorem cacheSound_step {c : ℕ × CString} (h : CacheSound s) (hname : NameDecides c s) :
    CacheSound (lookupStep c s) := by
  cases hdir : s.nodes[c.1]? with
  | none =>
      have hsame : lookupStep c s = s := by rw [lookupStep, vfsLookup, hdir]
      rw [hsame]
      exact h
  | some dir =>
      unfold lookupStep
      obtain ⟨child, -, hrun⟩ | ⟨-, -, hrun⟩ | ⟨handle, hfind, hlook, hrun⟩ :=
        vfsLookup_cases hdir c.2
      · rw [hrun]
        exact h
      · rw [hrun]
        exact h
      · rw [hrun]
        exact h.withChild hdir hlook (hname.found dir handle hdir hfind hlook)

/-- INTERNAL: the child that a lookup inserted is the first that compares equal, if its name
does. -/
theorem find_withChild (hchildren : ∀ c ∈ dir.children, c < s.nodes.length)
    (hdir : s.nodes[parent]? = some dir)
    (hfind : dir.children.find? (comparable s name) = none)
    (hname : dir.driver.fNodeName handle s.volumes <+: name ∨
      name <+: dir.driver.fNodeName handle s.volumes) :
    (dir.children ++ [s.nodes.length]).find?
      (comparable (withChild s parent dir handle) name) = some s.nodes.length := by
  have hnew : comparable (withChild s parent dir handle) name s.nodes.length = true := by
    unfold comparable
    rw [withChild_new hdir, Bool.or_eq_true, List.isPrefixOf_iff_prefix,
      List.isPrefixOf_iff_prefix]
    exact hname
  have hold : dir.children.find? (comparable (withChild s parent dir handle) name) = none := by
    rw [List.find?_eq_none] at hfind ⊢
    intro c hc
    rw [comparable_withChild (hchildren c hc)]
    exact hfind c hc
  rw [List.find?_append, hold, Option.none_or, List.find?_cons, hnew]

/-- INTERNAL: a lookup that the cache answers changes nothing. -/
theorem vfsLookup_of_find {child : ℕ} (hdir : s.nodes[parent]? = some dir)
    (hfind : dir.children.find? (comparable s name) = some child) :
    vfsLookup s parent name = (some child, s) := by
  obtain ⟨child', hchild, hrun⟩ | ⟨hnone, -⟩ | ⟨_, hnone, -⟩ := vfsLookup_cases hdir name
  · rw [hrun, Option.some.inj (hchild.symm.trans hfind)]
  · exact absurd (hnone.symm.trans hfind) (by simp)
  · exact absurd (hnone.symm.trans hfind) (by simp)

/-- INTERNAL: a lookup agrees with the driver exactly when the name decides it. -/
theorem lookupAgrees_iff {c : ℕ × CString} (h : CacheSound s) :
    LookupAgrees c s ↔ NameDecides c s := by
  constructor
  · intro hagrees
    refine ⟨fun dir child node hdir hfind hnode => ?_, fun dir handle hdir hfind hlook => ?_⟩
    · have hanswer := (hagrees dir hdir).1
      rw [lookupStep, vfsLookup_of_find hdir hfind] at hanswer
      cases hlook : dir.driver.fLookup dir.handle c.2 s.volumes with
      | none =>
          rw [hlook] at hanswer
          cases hanswer
      | some handle =>
          rw [hlook] at hanswer
          obtain ⟨vnode, node', hvnode, hnode', hhandle, hname⟩ := hanswer
          obtain rfl := Option.some.inj hvnode
          obtain rfl := Option.some.inj (hnode'.symm.trans hnode)
          refine ⟨hname, fun hmount => hmount c.2 ?_⟩
          rw [hlook, hhandle]
    · obtain ⟨child, hchild, -⟩ | ⟨-, hnone, -⟩ | ⟨handle', -, hlook', hrun⟩ :=
        vfsLookup_cases hdir c.2
      · exact absurd (hfind.symm.trans hchild) (by simp)
      · exact absurd (hnone.symm.trans hlook) (by simp)
      · have hanswer := (hagrees dir hdir).1
        obtain rfl := Option.some.inj (hlook'.symm.trans hlook)
        rw [lookupStep, hrun, hlook] at hanswer
        obtain ⟨vnode, node, hvnode, hnode, -, hname⟩ := hanswer
        obtain rfl := Option.some.inj hvnode
        obtain rfl := Option.some.inj ((withChild_new hdir handle').symm.trans hnode)
        exact hname
  · intro hdecides dir hdir
    obtain ⟨child, hchild, hrun⟩ | ⟨-, hlook, hrun⟩ | ⟨handle, hfind, hlook, hrun⟩ :=
      vfsLookup_cases hdir c.2
    · obtain ⟨node, hnode, hkind⟩ := h c.1 dir hdir child (List.mem_of_find?_eq_some hchild)
      obtain ⟨hname, hmount⟩ := hdecides.cached dir child node hdir hchild hnode
      have hfound := hkind.resolve_right hmount
      rw [FoundByName, hname] at hfound
      rw [lookupStep, hrun, hfound]
      exact ⟨⟨child, node, rfl, hnode, rfl, hname⟩, hrun⟩
    · rw [lookupStep, hrun, hlook]
      exact ⟨rfl, hrun⟩
    · have hname := hdecides.found dir handle hdir hfind hlook
      rw [lookupStep, hrun, hlook]
      refine ⟨⟨s.nodes.length, _, rfl, withChild_new hdir _, rfl, hname⟩,
        vfsLookup_of_find (withChild_parent hdir)
          (find_withChild (fun _ => h.child_lt hdir) hdir hfind (.inl ?_))⟩
      exact hname ▸ List.prefix_rfl

/-- INTERNAL: a name that the cache does not have. -/
theorem nameDecides_of_none {c : ℕ × CString} (hdir : s.nodes[c.1]? = some dir)
    (hfind : dir.children.find? (comparable s c.2) = none)
    (hname : ∀ handle, dir.driver.fLookup dir.handle c.2 s.volumes = some handle →
      dir.driver.fNodeName handle s.volumes = c.2) : NameDecides c s := by
  refine ⟨fun dir' child node hdir' hfind' _ => ?_, fun dir' handle hdir' _ hlook => ?_⟩
  · obtain rfl := Option.some.inj (hdir.symm.trans hdir')
    rw [hfind] at hfind'
    cases hfind'
  · obtain rfl := Option.some.inj (hdir.symm.trans hdir')
    exact hname handle hlook

/-- INTERNAL: a name that the cache has. -/
theorem nameDecides_of_some {c : ℕ × CString} {child : ℕ} {node : VfsNode H F δ}
    (hdir : s.nodes[c.1]? = some dir)
    (hfind : dir.children.find? (comparable s c.2) = some child)
    (hnode : s.nodes[child]? = some node) (hname : nodeName node s.volumes = c.2)
    (hfound : FoundByName s dir node) : NameDecides c s := by
  refine ⟨fun dir' child' node' hdir' hfind' hnode' => ?_, fun dir' handle hdir' hnone _ => ?_⟩
  · obtain rfl := Option.some.inj (hdir.symm.trans hdir')
    obtain rfl := Option.some.inj (hfind.symm.trans hfind')
    obtain rfl := Option.some.inj (hnode.symm.trans hnode')
    exact ⟨hname, fun hmount => hmount _ hfound⟩
  · obtain rfl := Option.some.inj (hdir.symm.trans hdir')
    rw [hfind] at hnone
    cases hnone

/-- **The cache and the driver.**  In every history of lookups, each one gives the file of
that name which the driver finds, or `NULL`, and would give the same again if and only if
at each one the first cached child that compares equal has the name itself and is no mount
point, and where there is none what the driver finds has the name itself.
SRCLINE: vfs.c:149-232 -/
theorem lookup_agrees_iff (hcache : CacheSound s) (lookups : List (ℕ × CString)) :
    EachCall lookupStep LookupAgrees lookups s ↔
      EachCall lookupStep NameDecides lookups s :=
  eachCall_congr_kept (fun _ _ h hname => cacheSound_step h hname)
    (fun _ _ h => lookupAgrees_iff h) hcache

end

/-! A driver whose files are their names, and a volume that holds every file. -/

/-- Every name is that of a file, which reads as its own name. -/
def namesOnly : VfsOperations CString CString Unit where
  fLookup _ name _ := some name
  fCreate _ _ _ v := v
  fOpen node _ v := (node, v)
  fClose _ v := v
  fRead file := some fun len v => ((len, file.take len), v)
  fWrite _ := some fun data v => (data.length, v)
  fNodeName node _ := node

/-- The root of that driver. -/
def namesRoot : Vfs CString CString Unit := ⟨[⟨[], namesOnly, []⟩], ()⟩

/-! The virtual files below a root of that driver, as `VFS_init` mounts them. -/

/-- A file by its name, or a virtual one. -/
abbrev BootHandle := CString ⊕ VfmNode

/-- The names of the files in the root, and those of the virtual files. -/
abbrev TreeNames := List CString × List CString

/-- A root file system with ordinary files only. -/
def bootDriver : VfsOperations BootHandle Unit TreeNames where
  fLookup dir name v := if dir = .inl [] ∧ name ∈ v.1 then some (.inl name) else none
  fCreate _ name _ v := (v.1 ++ [name], v.2)
  fOpen _ _ v := ((), v)
  fClose _ v := v
  fRead _ := some fun _ v => ((0, []), v)
  fWrite _ := some fun _ v => (0, v)
  fNodeName node _ := node.elim id fun _ => []

/-- The driver of the virtual files, which compares names as `VFS_lookup` does.
SRCLINE: vfm.c:76-106 -/
def virtualDriver : VfsOperations BootHandle Unit TreeNames where
  fLookup dir name v := dir.elim (fun _ => none) fun dir => (vfmLookup v.2 dir name).map .inr
  fCreate _ name _ v := (v.1, v.2 ++ [name])
  fOpen _ _ v := ((), v)
  fClose _ v := v
  fRead _ := some fun _ v => ((0, []), v)
  fWrite _ := some fun _ v => (0, v)
  fNodeName node v := node.elim (fun _ => []) (vfmNodename v.2 fun _ => [])

/-- The directory of the virtual files is mounted in the root. -/
def bootTree (v : TreeNames) : Vfs BootHandle Unit TreeNames :=
  ⟨[⟨.inl [], bootDriver, [1]⟩, ⟨.inr .root, virtualDriver, []⟩], v⟩

theorem bootDriver_lookup {dir handle : BootHandle} {name : CString} {v : TreeNames} :
    bootDriver.fLookup dir name v = some handle ↔
      (dir = .inl [] ∧ name ∈ v.1) ∧ .inl name = handle := by
  simp [bootDriver, Option.ite_none_right_eq_some]

theorem bootTree_sound (v : TreeNames) : CacheSound (bootTree v) := by
  intro parent dir hdir c hc
  match parent, hdir with
  | 0, hdir =>
      obtain rfl := Option.some.inj hdir
      obtain rfl : c = 1 := by simpa using hc
      refine ⟨_, rfl, .inr fun name hlook => ?_⟩
      cases (bootDriver_lookup.mp hlook).2
  | 1, hdir =>
      obtain rfl := Option.some.inj hdir
      cases hc

/-- In the tree with the virtual files `AB` and `B`, a file of the root and both of them are looked
up, and `AB` once more. -/
theorem lookup_agrees_iff_kept :
    EachCall lookupStep LookupAgrees
      [(0, [0x42]), (1, [0x41, 0x42]), (1, [0x42]), (1, [0x41, 0x42])]
      (bootTree ([[0x42]], [[0x41, 0x42], [0x42]])) := by
  apply (lookup_agrees_iff (bootTree_sound ([[0x42]], [[0x41, 0x42], [0x42]]))
    [(0, [0x42]), (1, [0x41, 0x42]), (1, [0x42]), (1, [0x41, 0x42])]).mpr
  refine ⟨nameDecides_of_none rfl rfl fun handle hlook => ?_,
    nameDecides_of_none rfl rfl fun handle hlook => ?_,
    nameDecides_of_none rfl rfl fun handle hlook => ?_, nameDecides_of_some rfl rfl rfl rfl rfl,
    trivial⟩
  · obtain rfl := Option.some.inj hlook
    rfl
  · obtain rfl := Option.some.inj hlook
    rfl
  · obtain rfl := Option.some.inj hlook
    rfl

/-- After a lookup of `AB`, a lookup of `A` gives the vnode of `AB`; and so does the driver of the
virtual files with nothing cached. -/
theorem lookup_gives_longer_name :
    CacheSound namesRoot ∧
    ¬ EachCall lookupStep LookupAgrees [(0, [0x41, 0x42]), (0, [0x41])] namesRoot ∧
    (vfsLookup (lookupStep (0, [0x41, 0x42]) namesRoot) 0 [0x41]).1 = some 1 ∧
    ¬ EachCall lookupStep LookupAgrees [(1, [0x41])] (bootTree ([], [[0x41, 0x42]])) := by
  refine ⟨fun parent dir hdir c hc => ?_, fun h => ?_, rfl, fun h => ?_⟩
  · obtain rfl := List.mem_singleton.mp (List.mem_of_getElem? hdir)
    exact absurd hc List.not_mem_nil
  · obtain ⟨vnode, node, hvnode, hnode, -, hname⟩ := (h.2.1 _ rfl).1
    obtain rfl := Option.some.inj hvnode
    obtain rfl := Option.some.inj hnode
    exact absurd hname (by decide)
  · obtain ⟨vnode, node, hvnode, hnode, -, hname⟩ := (h.1 _ rfl).1
    obtain rfl := Option.some.inj hvnode
    obtain rfl := Option.some.inj hnode
    exact absurd hname (by decide)

end LakeOS.Analysis
