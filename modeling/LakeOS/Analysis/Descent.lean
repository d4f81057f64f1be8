import LakeOS.Analysis.FatOffsets
import LakeOS.Analysis.PathCreate
import LakeOS.Model.FatDir

/-!
# Walking through files

`VFS_walk_path` looks the next component up in whatever the last one led to: in an ordinary
file, or in a cached file that is not the one which the component names but compares equal.
Its components name directories, whatever was looked up before, exactly when that is so
wherever something is found behind them.  `VFM_lookup` finds nothing in a file;
`FAT_lookup` reads the clusters of any file as directory entries.
-/

set_option autoImplicit false

namespace LakeOS.Analysis

open LakeOS.Library LakeOS.Model

/-! ## Components -/

/-- What a path can have between its slashes. -/
def IsComponent (name : CString) : Prop := name ≠ [] ∧ slash ∉ name

instance (name : CString) : Decidable (IsComponent name) := inferInstanceAs (Decidable (_ ∧ _))

theorem notMem_of_mem_splitOn {path piece : CString} (h : piece ∈ path.splitOn slash) :
    slash ∉ piece := by
  induction path generalizing piece with
  | nil =>
      obtain rfl : piece = [] := by simpa using h
      exact List.not_mem_nil
  | cons a path ih =>
      rw [List.splitOn_cons_eq_if_modifyHead] at h
      split at h
      next =>
        obtain rfl | hmem := List.mem_cons.mp h
        · exact List.not_mem_nil
        · exact ih hmem
      next hne =>
        cases hsplit : path.splitOn slash with
        | nil =>
            rw [hsplit] at h
            cases h
        | cons head pieces =>
            rw [hsplit, List.modifyHead_cons] at h
            rw [hsplit] at ih
            obtain rfl | hmem := List.mem_cons.mp h
            · rw [List.mem_cons, not_or]
              exact ⟨fun heq => hne (by simp [heq]), ih List.mem_cons_self⟩
            · exact ih (List.mem_cons_of_mem head hmem)

theorem isComponent_of_mem {path name : CString} (h : name ∈ components path) :
    IsComponent name := by
  obtain ⟨hmem, hne⟩ := List.mem_filter.mp h
  exact ⟨by simpa using hne, notMem_of_mem_splitOn hmem⟩

theorem components_all (path : CString) : ∀ name ∈ components path, IsComponent name :=
  fun _ => isComponent_of_mem

/-- The path with these components. -/
def pathOf : List CString → CString
  | [] => []
  | name :: names => slash :: (name ++ pathOf names)

theorem components_append_pathOf {name : CString} {names : List CString} (hname : IsComponent name)
    (hnames : ∀ n ∈ names, IsComponent n) : components (name ++ pathOf names) = name :: names := by
  induction names generalizing name with
  | nil => rw [pathOf, List.append_nil, components_singleton hname.2 hname.1]
  | cons next names ih =>
      rw [pathOf, components_append, components_singleton hname.2 hname.1,
        ih (hnames next List.mem_cons_self) fun n hn => hnames n (List.mem_cons_of_mem next hn),
        List.singleton_append]

theorem components_pathOf {names : List CString} (hnames : ∀ n ∈ names, IsComponent n) :
    components (pathOf names) = names := by
  cases names with
  | nil => rfl
  | cons name names =>
      have hempty := components_append [] (name ++ pathOf names)
      rw [components_nil, List.nil_append, List.nil_append] at hempty
      rw [pathOf, hempty]
      exact components_append_pathOf (hnames name List.mem_cons_self) fun n hn =>
        hnames n (List.mem_cons_of_mem name hn)

/-! ## Descending -/

section

variable {H F δ : Type}

/-- A volume with nothing in the cache. -/
def mountedAt (driver : VfsOperations H F δ) (volumes : δ) (root : H) : Vfs H F δ :=
  ⟨[⟨root, driver, []⟩], volumes⟩

/-- The cache after some paths were walked. -/
def afterWalks (history : List CString) (s : Vfs H F δ) : Vfs H F δ :=
  history.foldl (fun s path => (vfsWalkPath s path).2) s

/-- Every name but the last is that of a directory, in the directory before it. -/
def ThroughDirectories (driver : VfsOperations H F δ) (volumes : δ) (isDir : H → Prop) :
    H → List CString → Prop
  | _, [] => True
  | dir, name :: names => names ≠ [] → ∃ next, driver.fLookup dir name volumes = some next ∧
      isDir next ∧ ThroughDirectories driver volumes isDir next names

/-- If the walk leads to a vnode, every component of the path but the last names a directory. -/
def DescendsThrough (driver : VfsOperations H F δ) (volumes : δ) (isDir : H → Prop) (root : H)
    (s : Vfs H F δ) (path : CString) : Prop :=
  (vfsWalkPath s path).1.isSome → ThroughDirectories driver volumes isDir root (components path)

/-- A walk can be at the first file where its components name the second one: each file that it
went to has a name which compares equal to the component. -/
inductive WalkedTo (driver : VfsOperations H F δ) (volumes : δ) (root : H) : H → H → Prop
  | root : WalkedTo driver volumes root root root
  | child {dir named file file' : H} {name piece : CString}
      (hwalked : WalkedTo driver volumes root dir named)
      (hname : IsComponent name) (hlook : driver.fLookup dir name volumes = some file)
      (hpiece : IsComponent piece) (hequal : strcmp (driver.fNodeName file volumes) piece = 0)
      (hnamed : driver.fLookup named piece volumes = some file') :
      WalkedTo driver volumes root file file'

/-- A component that compares equal to the name of a file in which something can be found names a
directory. -/
def NamesDirectories (driver : VfsOperations H F δ) (volumes : δ) (isDir : H → Prop) (root : H) :
    Prop :=
  ∀ dir named, WalkedTo driver volumes root dir named → ∀ name file piece, IsComponent name →
    driver.fLookup dir name volumes = some file → IsComponent piece →
    strcmp (driver.fNodeName file volumes) piece = 0 →
    (∃ next, IsComponent next ∧ (driver.fLookup file next volumes).isSome) →
    ∃ file', driver.fLookup named piece volumes = some file' ∧ isDir file'

/-- The children of a vnode are files that the driver finds in it. -/
structure DescentCache (driver : VfsOperations H F δ) (volumes : δ) (root : H) (s : Vfs H F δ) :
    Prop where
  sameDriver : ∀ node ∈ s.nodes, node.driver = driver
  sameVolumes : s.volumes = volumes
  rootNode : ∃ node, s.nodes[vfsRoot]? = some node ∧ node.handle = root
  children : ∀ (i : ℕ) (dir : VfsNode H F δ), s.nodes[i]? = some dir → ∀ c ∈ dir.children,
    ∃ node name, s.nodes[c]? = some node ∧ IsComponent name ∧
      driver.fLookup dir.handle name volumes = some node.handle

variable {driver : VfsOperations H F δ} {volumes : δ} {isDir : H → Prop} {root : H}
  {s t : Vfs H F δ}

theorem DescentCache.mountedAt (driver : VfsOperations H F δ) (volumes : δ) (root : H) :
    DescentCache driver volumes root (mountedAt driver volumes root) where
  sameDriver := by
    intro node hnode
    rw [List.mem_singleton.mp hnode]
  sameVolumes := rfl
  rootNode := ⟨_, rfl, rfl⟩
  children := by
    intro i dir hdir c hc
    rw [List.mem_singleton.mp (List.mem_of_getElem? hdir)] at hc
    cases hc

/-- A file that got a child. -/
theorem DescentCache.withChild (h : DescentCache driver volumes root s) {parent : ℕ}
    {dir : VfsNode H F δ} (hdir : s.nodes[parent]? = some dir) {name : CString}
    (hname : IsComponent name) {handle : H}
    (hlook : driver.fLookup dir.handle name volumes = some handle) :
    DescentCache driver volumes root (withChild s parent dir handle) := by
  refine ⟨fun node hnode => ?_, h.sameVolumes, ?_, fun i node hnode c hc => ?_⟩
  · obtain ⟨i, hi⟩ := List.mem_iff_getElem?.mp hnode
    obtain ⟨node₀, hnode₀, -, hdriver, -⟩ | rfl := withChild_cases hdir hi
    · rw [hdriver]
      exact h.sameDriver node₀ (List.mem_of_getElem? hnode₀)
    · exact h.sameDriver dir (List.mem_of_getElem? hdir)
  · obtain ⟨node, hnode, rfl⟩ := h.rootNode
    obtain ⟨node', hnode', hhandle, -⟩ := withChild_keeps parent dir handle hnode
    exact ⟨node', hnode', hhandle⟩
  · obtain ⟨node₀, hnode₀, hhandle, -, hchildren⟩ | rfl := withChild_cases hdir hnode
    · rw [hhandle]
      obtain hold | ⟨rfl, rfl⟩ := hchildren c hc
      · obtain ⟨child, name', hchild, hname', hlook'⟩ := h.children i node₀ hnode₀ c hold
        obtain ⟨child', hchild', hsame, -⟩ := withChild_keeps parent dir handle hchild
        exact ⟨child', name', hchild', hname', hsame ▸ hlook'⟩
      · obtain rfl := Option.some.inj (hnode₀.symm.trans hdir)
        exact ⟨_, name, withChild_new hdir handle, hname, hlook⟩
    · cases hc

/-- **One lookup.**  The file that it leads to is in the file before it, and has a name that
compares equal. -/
theorem DescentCache.lookup (h : DescentCache driver volumes root s)
    (hfinds : FindsComparable driver volumes) {i : ℕ} {dir : VfsNode H F δ}
    (hdir : s.nodes[i]? = some dir) {piece : CString} (hpiece : IsComponent piece) :
    DescentCache driver volumes root (vfsLookup s i piece).2 ∧
      ∀ j, (vfsLookup s i piece).1 = some j → ∃ node name,
        (vfsLookup s i piece).2.nodes[j]? = some node ∧ IsComponent name ∧
        driver.fLookup dir.handle name volumes = some node.handle ∧
        strcmp (driver.fNodeName node.handle volumes) piece = 0 := by
  have hdriver := h.sameDriver dir (List.mem_of_getElem? hdir)
  obtain ⟨child, hfind, hrun⟩ | ⟨-, -, hrun⟩ | ⟨handle, -, hlook, hrun⟩ :=
    vfsLookup_cases hdir piece
  · rw [hrun]
    refine ⟨h, fun j hj => ?_⟩
    obtain rfl := Option.some.inj hj
    obtain ⟨node, name, hnode, hname, hlook⟩ :=
      h.children i dir hdir child (List.mem_of_find?_eq_some hfind)
    refine ⟨node, name, hnode, hname, hlook, ?_⟩
    have hequal := List.find?_some hfind
    rw [comparable, hnode, Bool.or_eq_true, List.isPrefixOf_iff_prefix,
      List.isPrefixOf_iff_prefix] at hequal
    rw [strcmp_eq_zero_iff, ← h.sameDriver node (List.mem_of_getElem? hnode), ← h.sameVolumes]
    exact hequal
  · rw [hrun]
    exact ⟨h, fun j hj => by cases hj⟩
  · rw [hdriver, h.sameVolumes] at hlook
    rw [hrun]
    refine ⟨h.withChild hdir hpiece hlook, fun j hj => ?_⟩
    obtain rfl := Option.some.inj hj
    exact ⟨_, piece, withChild_new hdir handle, hpiece, hlook,
      (strcmp_eq_zero_iff _ _).mpr (hfinds _ _ _ hlook)⟩

/-- **A walk.** -/
theorem DescentCache.walk (h : DescentCache driver volumes root s)
    (hfinds : FindsComparable driver volumes) {i : ℕ} {dir : VfsNode H F δ}
    (hdir : s.nodes[i]? = some dir) {pieces : List CString}
    (hpieces : ∀ piece ∈ pieces, IsComponent piece) :
    DescentCache driver volumes root (walkPieces s i pieces).2 := by
  induction pieces generalizing s i dir with
  | nil => exact h
  | cons piece pieces ih =>
      obtain ⟨hnext, hfound⟩ := h.lookup hfinds hdir (hpieces piece List.mem_cons_self)
      rw [walkPieces_cons]
      generalize vfsLookup s i piece = res at hnext hfound
      obtain ⟨found, s'⟩ := res
      cases found with
      | none => exact hnext
      | some j =>
          obtain ⟨node, -, hnode, -⟩ := hfound j rfl
          exact ih hnext hnode fun p hp => hpieces p (List.mem_cons_of_mem piece hp)

theorem DescentCache.afterWalks (h : DescentCache driver volumes root s)
    (hfinds : FindsComparable driver volumes) (history : List CString) :
    DescentCache driver volumes root (afterWalks history s) := by
  induction history generalizing s with
  | nil => exact h
  | cons path history ih =>
      obtain ⟨node, hnode, -⟩ := h.rootNode
      have hwalk := h.walk hfinds hnode (components_all path)
      rw [← vfsWalkPath_eq] at hwalk
      exact ih hwalk

/-- INTERNAL: where one lookup more leads to a vnode, something is found in the file. -/
theorem DescentCache.isSome_of_walk (h : DescentCache driver volumes root s)
    (hfinds : FindsComparable driver volumes) {i : ℕ} {dir : VfsNode H F δ}
    (hdir : s.nodes[i]? = some dir) {piece : CString} {pieces : List CString}
    (hpiece : IsComponent piece) (hsome : (walkPieces s i (piece :: pieces)).1.isSome) :
    ∃ next, IsComponent next ∧ (driver.fLookup dir.handle next volumes).isSome := by
  obtain ⟨-, hfound⟩ := h.lookup hfinds hdir hpiece
  rw [walkPieces_cons] at hsome
  generalize vfsLookup s i piece = res at hsome hfound
  obtain ⟨found, s'⟩ := res
  cases found with
  | none => cases hsome
  | some j =>
      obtain ⟨node, name, -, hname, hlook, -⟩ := hfound j rfl
      exact ⟨name, hname, by rw [hlook]; rfl⟩

/-- **The rest of a walk**, from a vnode that other components may name. -/
theorem DescentCache.through (h : DescentCache driver volumes root s)
    (hfinds : FindsComparable driver volumes)
    (hnames : NamesDirectories driver volumes isDir root) {i : ℕ} {dir : VfsNode H F δ}
    (hdir : s.nodes[i]? = some dir) {named : H}
    (hwalked : WalkedTo driver volumes root dir.handle named) {pieces : List CString}
    (hpieces : ∀ piece ∈ pieces, IsComponent piece)
    (hsome : (walkPieces s i pieces).1.isSome) :
    ThroughDirectories driver volumes isDir named pieces := by
  induction pieces generalizing s i dir named with
  | nil => trivial
  | cons piece pieces ih =>
      intro hrest
      have hpiece := hpieces piece List.mem_cons_self
      obtain ⟨hcache, hfound⟩ := h.lookup hfinds hdir hpiece
      rw [walkPieces_cons] at hsome
      generalize vfsLookup s i piece = res at hsome hcache hfound
      obtain ⟨found, s'⟩ := res
      cases found with
      | none => cases hsome
      | some j =>
          obtain ⟨node, name, hnode, hname, hlook, hequal⟩ := hfound j rfl
          have hall : ∀ p ∈ pieces, IsComponent p :=
            fun p hp => hpieces p (List.mem_cons_of_mem piece hp)
          -- something is found behind the vnode, so its component names a directory
          have hnext : ∃ next, IsComponent next ∧
              (driver.fLookup node.handle next volumes).isSome := by
            obtain ⟨next, rest, rfl⟩ := List.exists_cons_of_ne_nil hrest
            exact hcache.isSome_of_walk hfinds hnode (hall next List.mem_cons_self) hsome
          obtain ⟨file', hnamed, his⟩ :=
            hnames _ _ hwalked name _ piece hname hlook hpiece hequal hnext
          exact ⟨file', hnamed, his, ih hcache hnode
            (hwalked.child hname hlook hpiece hequal hnamed) hall hsome⟩

theorem DescentCache.descendsThrough (h : DescentCache driver volumes root s)
    (hfinds : FindsComparable driver volumes)
    (hnames : NamesDirectories driver volumes isDir root) (path : CString) :
    DescendsThrough driver volumes isDir root s path := by
  intro hsome
  obtain ⟨node, hnode, rfl⟩ := h.rootNode
  rw [vfsWalkPath_eq] at hsome
  exact h.through hfinds hnames hnode .root (components_all path) hsome

/-! ## The other direction -/

/-- A walk of other names caches the way to the vnode of the first file, and its components take
that way while they name the second one. -/
def CachedWay (driver : VfsOperations H F δ) (volumes : δ) (isDir : H → Prop) (root file named : H) :
    Prop :=
  ∃ names pieces i u, (∀ n ∈ names, IsComponent n) ∧ (∀ p ∈ pieces, IsComponent p) ∧
    walkPieces (mountedAt driver volumes root) vfsRoot names = (some i, u) ∧
    u.nodes[i]? = some ⟨file, driver, []⟩ ∧ u.volumes = volumes ∧ ChildrenIn u ∧
    Cached u vfsRoot pieces i ∧
    ∀ rest, rest ≠ [] → ThroughDirectories driver volumes isDir root (pieces ++ rest) →
      ThroughDirectories driver volumes isDir named rest

theorem Cached.concat {iter i j : ℕ} {pieces : List CString} {dir : VfsNode H F δ}
    {piece : CString} (h : Cached s iter pieces i) (hdir : s.nodes[i]? = some dir)
    (hfind : dir.children.find? (comparable s piece) = some j) :
    Cached s iter (pieces ++ [piece]) j := by
  induction pieces generalizing iter with
  | nil =>
      obtain rfl : iter = i := h
      exact ⟨dir, j, hdir, hfind, rfl⟩
  | cons first pieces ih =>
      obtain ⟨dir', child, hdir', hfind', hrest⟩ := h
      exact ⟨dir', child, hdir', hfind', ih hrest⟩

theorem isComponent_concat {names : List CString} (hnames : ∀ n ∈ names, IsComponent n)
    {name : CString} (hname : IsComponent name) : ∀ n ∈ names ++ [name], IsComponent n := by
  intro n hn
  obtain hold | hnew := List.mem_append.mp hn
  · exact hnames n hold
  · exact List.mem_singleton.mp hnew ▸ hname

/-- INTERNAL: one lookup more in a vnode without children. -/
theorem walkPieces_concat {i j : ℕ} {names : List CString} {file : H} {name : CString} {next : H}
    (hwalk : walkPieces s j names = (some i, t)) (hnode : t.nodes[i]? = some ⟨file, driver, []⟩)
    (hlook : driver.fLookup file name t.volumes = some next) :
    walkPieces s j (names ++ [name]) =
      (some t.nodes.length, withChild t i ⟨file, driver, []⟩ next) := by
  rw [walkPieces_append, hwalk]
  dsimp only
  rw [walkPieces_singleton]
  obtain ⟨child, hfind, -⟩ | ⟨-, hnone, -⟩ | ⟨handle, -, hlook', hrun⟩ :=
    vfsLookup_cases hnode name
  · cases hfind
  · rw [hlook] at hnone
    cases hnone
  · rw [hlook] at hlook'
    rw [hrun, ← Option.some.inj hlook']
    rfl

theorem WalkedTo.cachedWay {file named : H} (h : WalkedTo driver volumes root file named) :
    CachedWay driver volumes isDir root file named := by
  induction h with
  | root =>
      refine ⟨[], [], vfsRoot, mountedAt driver volumes root, by simp, by simp, rfl, rfl, rfl, ?_,
        rfl, fun rest _ hthrough => hthrough⟩
      intro i dir hdir c hc
      rw [List.mem_singleton.mp (List.mem_of_getElem? hdir)] at hc
      cases hc
  | @child dir named file file' name piece _ hname hlook hpiece hequal hnamed ih =>
      obtain ⟨names, pieces, i, u, hnames, hpieces, hwalk, hnode, hvolumes, hchildren, hcached,
        hthrough⟩ := ih
      subst hvolumes
      refine ⟨names ++ [name], pieces ++ [piece], u.nodes.length, withChild u i _ file,
        isComponent_concat hnames hname, isComponent_concat hpieces hpiece,
        walkPieces_concat hwalk hnode hlook, withChild_new hnode file, rfl,
        hchildren.withChild hnode file, ?_, fun rest hrest hall => ?_⟩
      · exact (hcached.extends hchildren.extends_withChild).concat (withChild_parent hnode)
          (find_withChild (hchildren i _ hnode) hnode rfl ((strcmp_eq_zero_iff _ _).mp hequal))
      · rw [List.append_assoc] at hall
        obtain ⟨next, hnext, -, hafter⟩ := hthrough _ (by simp) hall hrest
        obtain rfl := Option.some.inj (hnext.symm.trans hnamed)
        exact hafter

/-- INTERNAL: a component that names no directory, with something behind it, is walked over after
a walk of another path. -/
theorem namesDirectories_of_descends
    (hall : ∀ history path, DescendsThrough driver volumes isDir root
      (afterWalks history (mountedAt driver volumes root)) path) :
    NamesDirectories driver volumes isDir root := by
  rintro dir named hwalked name file piece hname hlook hpiece hequal ⟨next, hnext, hbehind⟩
  have hcachedWay : CachedWay driver volumes isDir root dir named := hwalked.cachedWay
  obtain ⟨names, pieces, i, u, hnames, hpieces, hwalk, hnode, rfl, hchildren, hcached, hthrough⟩ :=
    hcachedWay
  have hfirst := walkPieces_concat hwalk hnode hlook
  have hway : Cached (withChild u i _ file) vfsRoot (pieces ++ [piece]) u.nodes.length :=
    (hcached.extends hchildren.extends_withChild).concat (withChild_parent hnode)
      (find_withChild (hchildren i _ hnode) hnode rfl ((strcmp_eq_zero_iff _ _).mp hequal))
  obtain ⟨found, hfound⟩ := Option.isSome_iff_exists.mp hbehind
  have hsecond := walkPieces_concat hway.walk (withChild_new hnode file) hfound
  have hpath := components_pathOf
    (isComponent_concat (isComponent_concat hpieces hpiece) hnext)
  have hdescends := hall [pathOf (names ++ [name])] (pathOf (pieces ++ [piece] ++ [next]))
  rw [DescendsThrough, hpath, vfsWalkPath_eq, hpath, afterWalks, List.foldl_cons, List.foldl_nil,
    vfsWalkPath_eq, components_pathOf (isComponent_concat hnames hname), hfirst, hsecond,
    List.append_assoc] at hdescends
  obtain ⟨file', hnamed, his, -⟩ := hthrough _ (by simp) (hdescends rfl) (by simp)
  exact ⟨file', hnamed, his⟩

/-- **Paths descend through directories only**, whatever was walked before, if and only if the
components that lead to files in which something is found name directories. -/
theorem descendsThrough_iff (hfinds : FindsComparable driver volumes) (isDir : H → Prop)
    (root : H) :
    (∀ history path, DescendsThrough driver volumes isDir root
      (afterWalks history (mountedAt driver volumes root)) path) ↔
      NamesDirectories driver volumes isDir root :=
  ⟨namesDirectories_of_descends, fun hnames history path =>
    ((DescentCache.mountedAt driver volumes root).afterWalks hfinds history).descendsThrough hfinds
      hnames path⟩

end

/-! ## FAT volumes and virtual files -/

/-- `f_Lookup` and `f_NodeName` of a FAT volume; a search that never ends leads to no vnode. -/
structure LooksUpFat (ctx : FatContext) (junk : Uninit) {F : Type}
    (driver : VfsOperations FatHandle F Disk) : Prop where
  lookup : ∀ dir name d, driver.fLookup dir name d = (fatLookup ctx junk dir name d).join
  nodeName : ∀ handle d, driver.fNodeName handle d = fatHandleName handle

/-- The entries with the directory attribute. -/
def FatIsDir (file : FatHandle) : Prop := hasFlag file.attribs entryAttrDirectory

instance (file : FatHandle) : Decidable (FatIsDir file) :=
  inferInstanceAs (Decidable (_ = true))

/-- `f_Lookup` and `f_NodeName` of the virtual files. -/
structure LooksUpVfm (names : List CString) {F δ : Type} (driver : VfsOperations VfmNode F δ) :
    Prop where
  lookup : ∀ dir name d, driver.fLookup dir name d = vfmLookup names dir name
  nodeName : ∀ i d, driver.fNodeName (.file i) d = names.getD i []

/-- INTERNAL: a handle keeps 13 bytes of the name that was looked up. -/
theorem LooksUpFat.name_eq {ctx : FatContext} {junk : Uninit} {F : Type}
    {driver : VfsOperations FatHandle F Disk} (h : LooksUpFat ctx junk driver) {dir file : FatHandle}
    {name : CString} {d : Disk} (hfound : driver.fLookup dir name d = some file) (d' : Disk) :
    driver.fNodeName file d' = name.take 13 := by
  rw [h.lookup, Option.join_eq_some_iff, fatLookup] at hfound
  obtain ⟨entry, -, hfile⟩ := Option.bind_eq_some_iff.mp hfound
  rw [Option.pure_def, Option.some_inj, Option.ite_none_right_eq_some] at hfile
  obtain rfl := Option.some.inj hfile.2
  exact h.nodeName _ d'

theorem LooksUpFat.findsComparable {ctx : FatContext} {junk : Uninit} {F : Type}
    {driver : VfsOperations FatHandle F Disk} (h : LooksUpFat ctx junk driver) (d : Disk) :
    FindsComparable driver d := by
  intro dir name file hlook
  rw [h.name_eq hlook]
  exact .inl (List.take_prefix 13 name)

theorem LooksUpVfm.findsComparable {names : List CString} {F δ : Type}
    {driver : VfsOperations VfmNode F δ} (h : LooksUpVfm names driver) (volumes : δ) :
    FindsComparable driver volumes := by
  intro dir name file hlook
  rw [h.lookup] at hlook
  obtain ⟨-, i, hequal, rfl⟩ := vfmLookup_eq_some hlook
  rw [h.nodeName]
  exact (strcmp_eq_zero_iff _ _).mp hequal

/-- A driver that looks files up on a FAT volume. -/
def fatReadOnly (ctx : FatContext) (junk : Uninit) : VfsOperations FatHandle Unit Disk where
  fLookup := fun dir name d => (fatLookup ctx junk dir name d).join
  fCreate := fun _ _ _ d => d
  fOpen := fun _ _ d => ((), d)
  fClose := fun _ d => d
  fRead := fun _ => some fun _ d => ((0, []), d)
  fWrite := fun _ => some fun _ d => (0, d)
  fNodeName := fun handle _ => fatHandleName handle

/-- A driver of the virtual file `AB`. -/
def virtualFiles : VfsOperations VfmNode Unit Unit where
  fLookup := fun dir name _ => vfmLookup [[0x41, 0x42]] dir name
  fCreate := fun _ _ _ d => d
  fOpen := fun _ _ d => ((), d)
  fClose := fun _ d => d
  fRead := fun _ => some fun _ d => ((0, []), d)
  fWrite := fun _ => some fun _ d => (0, d)
  fNodeName := fun node _ => vfmNodename [[0x41, 0x42]] (fun _ => []) node

/-- A disk on which nothing was written. -/
def zeroDisk : Disk := fun _ => 0

theorem zeroDisk_entry {ctx : FatContext} {junk : Uninit} {cluster n : ℕ}
    {answer : ℕ × Option (List Byte)}
    (h : fatDirEntry ctx junk cluster n zeroDisk = some answer) {entry : List Byte}
    (hentry : answer.2 = some entry) : entryFirstClusterLow entry = 0 := by
  obtain ⟨off, -, rfl⟩ := Option.map_eq_some_iff.mp h
  split at hentry
  next => rw [← Option.some.inj hentry]; rfl
  next => cases hentry

theorem zeroDisk_loop {ctx : FatContext} {junk : Uninit} {cluster : ℕ} {conv : List Byte}
    {fuel i eoc : ℕ} {entry found : List Byte} (hentry : entryFirstClusterLow entry = 0)
    (h : fatFileEntryLoop ctx junk cluster conv zeroDisk fuel i eoc entry = some found) :
    entryFirstClusterLow found = 0 := by
  induction fuel generalizing i eoc entry with
  | zero => cases h
  | succ fuel ih =>
      rw [fatFileEntryLoop] at h
      split at h
      next => rw [← Option.some.inj h]; rfl
      next =>
        split at h
        next => rw [← Option.some.inj h]; exact hentry
        next =>
          obtain ⟨next, hnext, hloop⟩ := Option.bind_eq_some_iff.mp h
          refine ih ?_ hloop
          cases hread : next.2 with
          | none => exact hentry
          | some read => exact zeroDisk_entry hnext hread

theorem zeroDisk_lookup (ctx : FatContext) (lastFreeCluster : ℕ) (dir : FatHandle)
    (name : CString) :
    (fatLookup ctx ⟨lastFreeCluster, []⟩ dir name zeroDisk).join = none := by
  cases h : fatLookup ctx ⟨lastFreeCluster, []⟩ dir name zeroDisk with
  | none => rfl
  | some handle =>
      obtain ⟨entry, hentry, hhandle⟩ := Option.bind_eq_some_iff.mp h
      obtain ⟨first, hfirst, hloop⟩ := Option.bind_eq_some_iff.mp hentry
      have hzero : entryFirstClusterLow (first.2.getD []) = 0 := by
        cases hread : first.2 with
        | none => rfl
        | some read => exact zeroDisk_entry hfirst hread
      rw [← Option.some.inj hhandle, if_neg (not_not.mpr (zeroDisk_loop hzero hloop))]
      rfl

/-- The directory entry of a file with a name of one character. -/
def shortEntry (name : Byte) (cluster : ℕ) : List Byte :=
  name :: List.replicate 10 blank ++ [0x20] ++ List.replicate 14 0 ++ leBytes 2 cluster ++
    leBytes 4 32

/-- A floppy disk with the file `F`, whose content is the entry of a file `G`. -/
def forged : Disk := (Store.write (fun _ => 0) 9728 (shortEntry 0x46 2)).write 16896 (shortEntry 0x47 3)

theorem length_shortEntry (name : Byte) (cluster : ℕ) : (shortEntry name cluster).length = 32 := by
  simp [shortEntry]

/-- A directory whose first entry has the name. -/
theorem fatLookup_first {ctx : FatContext} {junk : Uninit} {dir : FatHandle} {name : CString}
    {d : Disk} {entry : List Byte}
    (hentry : fatDirEntry ctx junk dir.startCluster 0 d = some (0, some entry))
    (hname : memcmp entry (fatConvFname (name.take 11)) 11 = 0)
    (hattributes : hasFlag (entryAttributes entry) entryAttrVolumeId = false)
    (hcluster : entryFirstClusterLow entry ≠ 0) :
    fatLookup ctx junk dir name d = some (some {
      startCluster := entryFirstClusterLow entry
      dirCluster := dir.startCluster
      attribs := entryAttributes entry
      name := name.take 13 }) := by
  have hloop : fatFileEntry ctx junk ⟨dir.startCluster, 0, 0, name.take 11⟩ d = some entry := by
    rw [fatFileEntry, hentry]
    simp only [Option.bind_eq_bind, Option.bind_some, Option.getD_some]
    rw [show fatFuel = 4294967295 + 1 from rfl, fatFileEntryLoop, if_neg (by decide),
      if_pos ⟨hname, by rw [hattributes]; rfl⟩]
  rw [fatLookup]
  simp only [Option.bind_eq_bind, hloop, Option.bind_some]
  rw [if_pos hcluster]
  rfl

theorem forged_lookup_file :
    fatLookup floppy ⟨1, []⟩ fatGetRoot [0x46] forged = some (some ⟨0, 2, 0x20, [0x46]⟩) := by
  have hread : forged.read 9728 32 = shortEntry 0x46 2 := by
    rw [forged, Store.read_write_disjoint _ _ (.inl (by decide)),
      ← length_shortEntry 0x46 2, Store.read_write_self]
  have hentry : fatDirEntry floppy ⟨1, []⟩ fatGetRoot.startCluster 0 forged =
      some (0, some (shortEntry 0x46 2)) := by
    rw [← hread]
    rfl
  exact fatLookup_first hentry (by decide) (by decide) (by decide)

theorem forged_lookup_forged :
    fatLookup floppy ⟨1, []⟩ ⟨0, 2, 0x20, [0x46]⟩ [0x47] forged =
      some (some ⟨2, 3, 0x20, [0x47]⟩) := by
  have hread : forged.read 16896 32 = shortEntry 0x47 3 := by
    rw [forged, ← length_shortEntry 0x47 3, Store.read_write_self]
  have hentry : fatDirEntry floppy ⟨1, []⟩ (FatHandle.mk 0 2 0x20 [0x46]).startCluster 0 forged =
      some (0, some (shortEntry 0x47 3)) := by
    rw [← hread]
    rfl
  exact fatLookup_first hentry (by decide) (by decide) (by decide)

end LakeOS.Analysis
