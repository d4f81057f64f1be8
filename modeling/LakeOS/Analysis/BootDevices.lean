import LakeOS.Analysis.ArbitraryDescriptors
import LakeOS.Analysis.BootDialogue
import LakeOS.Analysis.Descent
import LakeOS.Analysis.PathWalk
import LakeOS.Analysis.Unlinking
import LakeOS.Library.Runs
import LakeOS.Model.Dev
import LakeOS.Model.VfsEntry

/-!
# The device files after the start

`VFS_init_rootfs` caches the directory of the devices among the children of the root, and opens
`STDIN` and `STDOUT` as the descriptors `0` and `1`.  The cache comes before the disk, and vnodes of
drivers without `f_Remove` are never unlinked.  So in every run of calls the paths of the two files
lead to them, whatever the disk has under these names, and the descriptors stay open on them until
they are closed.
-/

set_option autoImplicit false

namespace LakeOS.Analysis

open LakeOS.Library LakeOS.Model

section

variable {H F δ : Type} {s t u : Vfs H F δ}

/-! ## Vnodes that stay -/

/-- Every vnode keeps its handle and its driver, and its children in their order. -/
def Grows (s t : Vfs H F δ) : Prop :=
  ∀ (i : ℕ) (node : VfsNode H F δ), s.nodes[i]? = some node →
    ∃ more, t.nodes[i]? = some { node with children := node.children ++ more }

theorem Grows.refl (s : Vfs H F δ) : Grows s s :=
  fun _ _ hi => ⟨[], by rw [List.append_nil]; exact hi⟩

theorem Grows.trans (h : Grows s t) (h' : Grows t u) : Grows s u := by
  intro i node hi
  obtain ⟨more, ht⟩ := h i node hi
  obtain ⟨more', hu⟩ := h' i _ ht
  exact ⟨more ++ more', by rw [hu, List.append_assoc]⟩

theorem grows_withChild (p : ℕ) (dir : VfsNode H F δ) (handle : H) :
    Grows s (withChild s p dir handle) := by
  intro i node hi
  rw [withChild_old (List.getElem?_eq_some_iff.mp hi).1, hi, Option.map_some]
  by_cases hp : p = i
  · exact ⟨[s.nodes.length], by rw [if_pos hp]⟩
  · exact ⟨[], by rw [if_neg hp, List.append_nil]⟩

theorem grows_vfsLookup (s : Vfs H F δ) (p : ℕ) (name : CString) :
    Grows s (vfsLookup s p name).2 := by
  cases hdir : s.nodes[p]? with
  | none =>
    rw [vfsLookup, hdir]
    exact .refl s
  | some dir =>
    obtain ⟨child, -, hlook⟩ | ⟨-, -, hlook⟩ | ⟨handle, -, -, hlook⟩ := vfsLookup_cases hdir name
    · rw [hlook]
      exact .refl s
    · rw [hlook]
      exact .refl s
    · rw [hlook]
      exact grows_withChild p dir handle

theorem grows_walkPieces (s : Vfs H F δ) (iter : ℕ) (pieces : List CString) :
    Grows s (walkPieces s iter pieces).2 := by
  induction pieces generalizing s iter with
  | nil => exact .refl s
  | cons piece pieces ih =>
    have hlook := grows_vfsLookup s iter piece
    rw [walkPieces_cons]
    generalize vfsLookup s iter piece = r at *
    obtain ⟨found, s'⟩ := r
    cases found with
    | none => exact hlook
    | some next => exact hlook.trans (ih s' next)

theorem grows_vfsWalkPath (s : Vfs H F δ) (path : CString) : Grows s (vfsWalkPath s path).2 := by
  rw [vfsWalkPath_eq]
  exact grows_walkPieces s vfsRoot (components path)

/-! ## The tree of the devices -/

/-- `"DEV"`. -/
abbrev nameDev : CString := [0x44, 0x45, 0x56]

/-- `"VIRT"`. -/
abbrev nameVirt : CString := [0x56, 0x49, 0x52, 0x54]

variable {b : BootDrivers H F δ} {root : VfsOperations H F δ} {handle stdin stdout : H}

/-- The names that the drivers give, whatever is on the volumes, and the two files that the driver
of the devices finds; it has no `f_Remove`. -/
structure BootNames (b : BootDrivers H F δ) (root : VfsOperations H F δ)
    (handle stdin stdout : H) : Prop where
  lakeos : ∀ h v v', root.fLookup handle nameLakeos v = some h →
    root.fNodeName h v' = nameLakeos
  virt : ∀ v, b.vfm.fNodeName b.vfmRoot v = nameVirt
  dev : ∀ v, b.dev.fNodeName b.devRoot v = nameDev
  stdin : ∀ v, b.dev.fLookup b.devRoot nameStdin v = some stdin ∧
    b.dev.fNodeName stdin v = nameStdin
  stdout : ∀ v, b.dev.fLookup b.devRoot nameStdout v = some stdout ∧
    b.dev.fNodeName stdout v = nameStdout
  noRemove : b.dev.fRemove = none

/-- The name of a vnode never compares equal to another name. -/
def NeverNamed (node : VfsNode H F δ) (name : CString) : Prop :=
  ∀ v, strcmp (nodeName node v) name ≠ 0

/-- The directory of the devices is the first child of the root that is called so, and the two
files are its first children: `d`, `i` and `o` are their vnodes. -/
structure DevicesMounted (b : BootDrivers H F δ) (stdin stdout : H) (s : Vfs H F δ)
    (d i o : ℕ) : Prop where
  root : ∃ node pre post, s.nodes[vfsRoot]? = some node ∧ node.children = pre ++ d :: post ∧
    ∀ x ∈ pre, ∃ other, s.nodes[x]? = some other ∧ NeverNamed other nameDev
  dev : ∃ more, s.nodes[d]? = some ⟨b.devRoot, b.dev, i :: o :: more⟩
  stdin : ∃ more, s.nodes[i]? = some ⟨stdin, b.dev, more⟩
  stdout : ∃ more, s.nodes[o]? = some ⟨stdout, b.dev, more⟩

variable {d i o : ℕ}

/-- INTERNAL: vnodes that stay. -/
theorem DevicesMounted.grows (h : DevicesMounted b stdin stdout s d i o) (hgrows : Grows s t) :
    DevicesMounted b stdin stdout t d i o := by
  obtain ⟨node, pre, post, hroot, hchildren, hpre⟩ := h.root
  obtain ⟨moreRoot, hroot'⟩ := hgrows _ _ hroot
  obtain ⟨more, hdev⟩ := h.dev
  obtain ⟨moreDev, hdev'⟩ := hgrows _ _ hdev
  obtain ⟨moreIn, hstdin⟩ := h.stdin
  obtain ⟨moreIn', hstdin'⟩ := hgrows _ _ hstdin
  obtain ⟨moreOut, hstdout⟩ := h.stdout
  obtain ⟨moreOut', hstdout'⟩ := hgrows _ _ hstdout
  refine ⟨⟨_, pre, post ++ moreRoot, hroot', ?_, fun x hx => ?_⟩, ⟨more ++ moreDev, hdev'⟩,
    ⟨_, hstdin'⟩, ⟨_, hstdout'⟩⟩
  · rw [hchildren, List.append_assoc, List.cons_append]
  · obtain ⟨other, hother, hnever⟩ := hpre x hx
    obtain ⟨moreOther, hother'⟩ := hgrows _ _ hother
    exact ⟨_, hother', hnever⟩

/-- INTERNAL: only one element leaves a list, and it is not the first. -/
theorem vfsUnlink_append {c : ℕ} {l l' : List ℕ} (h : vfsUnlink c l = some l') :
    ∃ x as bs, l = x :: as ++ c :: bs ∧ l' = x :: as ++ bs := by
  unfold vfsUnlink at h
  induction l generalizing l' with
  | nil => exact absurd h (by simp [unlinkNext])
  | cons a l ih =>
    cases l with
    | nil => exact absurd h (by simp [unlinkNext])
    | cons e l =>
      rw [unlinkNext] at h
      by_cases hc : (e == c) = true
      · rw [if_pos hc] at h
        cases h
        exact ⟨a, [], l, by rw [beq_iff_eq.mp hc]; rfl, rfl⟩
      · rw [if_neg hc] at h
        obtain ⟨l'', hl'', rfl⟩ := Option.map_eq_some_iff.mp h
        obtain ⟨x, as, bs, hl, rfl⟩ := ih hl''
        exact ⟨a, x :: as, bs, by rw [hl]; rfl, rfl⟩

/-- INTERNAL: what is in front of a child that stays only loses elements. -/
theorem vfsUnlink_before {c x : ℕ} {pre post l' : List ℕ}
    (h : vfsUnlink c (pre ++ x :: post) = some l') (hx : x ≠ c) :
    ∃ pre' post', l' = pre' ++ x :: post' ∧ ∀ y ∈ pre', y ∈ pre := by
  obtain ⟨a, as, bs, hl, rfl⟩ := vfsUnlink_append h
  obtain ⟨cs, hpre, hrest⟩ | ⟨cs, hpre, hrest⟩ := List.append_eq_append_iff.mp hl
  · cases cs with
    | nil =>
      rw [List.nil_append] at hrest
      exact absurd (List.cons.inj hrest).1 hx
    | cons y cs =>
      obtain ⟨rfl, rfl⟩ := List.cons.inj hrest
      exact ⟨pre, cs ++ bs, by rw [hpre]; simp, fun _ hy => hy⟩
  · cases cs with
    | nil =>
      rw [List.nil_append] at hrest
      exact absurd (List.cons.inj hrest).1.symm hx
    | cons y cs =>
      obtain ⟨rfl, rfl⟩ := List.cons.inj hrest
      refine ⟨a :: as ++ cs, post, by simp, fun z hz => ?_⟩
      rw [hpre]
      simp only [List.mem_append, List.mem_cons] at hz ⊢
      tauto

/-- INTERNAL: a vnode leaves the tree.  `STDIN` is the first child, which is never unlinked. -/
theorem DevicesMounted.unlink (h : DevicesMounted b stdin stdout s d i o) {p c : ℕ}
    {dir : VfsNode H F δ} {children : List ℕ} {v : δ} (hdir : s.nodes[p]? = some dir)
    (hunlink : vfsUnlink c dir.children = some children) (hd : d ≠ c) (ho : o ≠ c) :
    DevicesMounted b stdin stdout
      ⟨s.nodes.modify p fun dir => { dir with children := children }, v⟩ d i o := by
  have hnodes : ∀ k, (s.nodes.modify p fun dir => { dir with children := children })[k]? =
      s.nodes[k]?.map fun node => if p = k then { node with children := children } else node :=
    fun k => by rw [List.getElem?_modify]; rfl
  have hkeeps : ∀ {k : ℕ} {node : VfsNode H F δ}, s.nodes[k]? = some node →
      ∃ cs, (s.nodes.modify p fun dir => { dir with children := children })[k]? =
        some { node with children := cs } := by
    intro k node hk
    rw [hnodes, hk, Option.map_some]
    by_cases hp : p = k
    · exact ⟨children, by rw [if_pos hp]⟩
    · exact ⟨node.children, by rw [if_neg hp]⟩
  refine ⟨?_, ?_, ?_, ?_⟩
  · obtain ⟨node, pre, post, hroot, hchildren, hpre⟩ := h.root
    have hstay : ∀ x ∈ pre, ∃ other,
        (s.nodes.modify p fun dir => { dir with children := children })[x]? = some other ∧
          NeverNamed other nameDev := by
      intro x hx
      obtain ⟨other, hother, hnever⟩ := hpre x hx
      obtain ⟨cs, hother'⟩ := hkeeps hother
      exact ⟨_, hother', hnever⟩
    by_cases hp : p = vfsRoot
    · subst hp
      cases Option.some.inj (hroot.symm.trans hdir)
      rw [hchildren] at hunlink
      obtain ⟨pre', post', rfl, hsub⟩ := vfsUnlink_before hunlink hd
      refine ⟨{ dir with children := pre' ++ d :: post' }, pre', post', ?_, rfl,
        fun x hx => hstay x (hsub x hx)⟩
      show (s.nodes.modify _ _)[_]? = _
      rw [hnodes, hroot, Option.map_some, if_pos rfl]
    · refine ⟨node, pre, post, ?_, hchildren, hstay⟩
      show (s.nodes.modify _ _)[_]? = _
      rw [hnodes, hroot, Option.map_some, if_neg hp]
  · obtain ⟨more, hdev⟩ := h.dev
    by_cases hp : p = d
    · subst hp
      cases Option.some.inj (hdev.symm.trans hdir)
      obtain ⟨a, as, bs, hl, rfl⟩ := vfsUnlink_append hunlink
      obtain ⟨rfl, htail⟩ := List.cons.inj hl
      cases as with
      | nil => exact absurd (List.cons.inj htail).1 ho
      | cons a as =>
        obtain ⟨rfl, rfl⟩ := List.cons.inj htail
        refine ⟨as ++ bs, ?_⟩
        show (s.nodes.modify _ _)[_]? = _
        rw [hnodes, hdev, Option.map_some, if_pos rfl]
        rfl
    · refine ⟨more, ?_⟩
      show (s.nodes.modify _ _)[_]? = _
      rw [hnodes, hdev, Option.map_some, if_neg hp]
  · obtain ⟨more, hstdin⟩ := h.stdin
    exact hkeeps hstdin
  · obtain ⟨more, hstdout⟩ := h.stdout
    exact hkeeps hstdout

/-! ## Walking to the devices -/

/-- INTERNAL: a child that compares equal is found if none in front of it does. -/
theorem vfsLookup_cached {p x : ℕ} {name : CString} {dir node : VfsNode H F δ} (pre : List ℕ)
    {post : List ℕ} (hdir : s.nodes[p]? = some dir) (hchildren : dir.children = pre ++ x :: post)
    (hpre : ∀ y ∈ pre, ∃ other, s.nodes[y]? = some other ∧ NeverNamed other name)
    (hx : s.nodes[x]? = some node) (hname : nodeName node s.volumes = name) :
    vfsLookup s p name = (some x, s) := by
  refine vfsLookup_of_find hdir ?_
  have hmatch : comparable s name = nodeMatches s name := (funext (nodeMatches_eq s name)).symm
  have hnone : pre.find? (nodeMatches s name) = none := by
    refine List.find?_eq_none.mpr fun y hy => ?_
    obtain ⟨other, hother, hnever⟩ := hpre y hy
    rw [nodeMatches, hother]
    exact fun hequal => hnever s.volumes (beq_iff_eq.mp hequal)
  have hhere : nodeMatches s name x = true := by
    rw [nodeMatches, hx]
    refine beq_iff_eq.mpr ?_
    rw [show node.driver.fNodeName node.handle s.volumes = name from hname,
      strcmp_eq_zero_iff]
    exact .inl List.prefix_rfl
  rw [hchildren, hmatch, List.find?_append, hnone, Option.none_or, List.find?_cons_of_pos hhere]

/-- INTERNAL: **the devices are reached** without a change. -/
theorem DevicesMounted.walk (h : DevicesMounted b stdin stdout s d i o)
    (hnames : BootNames b root handle stdin stdout) (path : CString) :
    (components path = [nameDev, nameStdin] → vfsWalkPath s path = (some i, s)) ∧
      (components path = [nameDev, nameStdout] → vfsWalkPath s path = (some o, s)) := by
  obtain ⟨node, pre, post, hroot, hchildren, hpre⟩ := h.root
  obtain ⟨more, hdev⟩ := h.dev
  obtain ⟨moreIn, hstdin⟩ := h.stdin
  obtain ⟨moreOut, hstdout⟩ := h.stdout
  have hdir : vfsLookup s vfsRoot nameDev = (some d, s) :=
    vfsLookup_cached pre hroot hchildren hpre hdev (hnames.dev s.volumes)
  have hother : NeverNamed (⟨stdin, b.dev, moreIn⟩ : VfsNode H F δ) nameStdout := by
    intro v
    show strcmp (b.dev.fNodeName stdin v) nameStdout ≠ 0
    rw [(hnames.stdin v).2]
    decide
  have hin : vfsLookup s d nameStdin = (some i, s) :=
    vfsLookup_cached [] hdev (List.nil_append _).symm (by simp) hstdin (hnames.stdin s.volumes).2
  have hout : vfsLookup s d nameStdout = (some o, s) := by
    refine vfsLookup_cached [i] hdev rfl (fun y hy => ?_) hstdout
      (hnames.stdout s.volumes).2
    rw [List.mem_singleton.mp hy]
    exact ⟨_, hstdin, hother⟩
  refine ⟨fun hpath => ?_, fun hpath => ?_⟩
  · rw [vfsWalkPath_eq, hpath, walkPieces_cons, hdir]
    dsimp only
    rw [walkPieces_cons, hin]
    rfl
  · rw [vfsWalkPath_eq, hpath, walkPieces_cons, hdir]
    dsimp only
    rw [walkPieces_cons, hout]
    rfl

end

/-! ## Descriptors that stay open -/

section

variable {H F δ : Type} {s t : FileTable H F δ} {fd : ℕ} {file : FileDescriptor H F δ}

/-- A descriptor is open on a file, and no other has its pointer. -/
def OpenAlone (s : FileTable H F δ) (fd : ℕ) (file : FileDescriptor H F δ) : Prop :=
  ∃ p, s.descriptorList[fd]? = some p ∧ s.heap p = some file ∧
    ∀ k ≠ fd, s.descriptorList[k]? ≠ some p

theorem OpenAlone.descriptorAt (h : OpenAlone s fd file) : descriptorAt s fd = some file := by
  obtain ⟨p, hp, hlive, -⟩ := h
  rw [Model.descriptorAt, hp]
  exact hlive

theorem OpenAlone.congr (h : OpenAlone s fd file) (hlist : t.descriptorList = s.descriptorList)
    (hheap : t.heap = s.heap) : OpenAlone t fd file := by
  unfold OpenAlone
  rw [hlist, hheap]
  exact h

/-- INTERNAL: another descriptor is opened. -/
theorem OpenAlone.newDescriptor (h : OpenAlone s fd file) (hzero : s.heap 0 = none) {res : ℕ}
    (hres : s.heap res = none) (file' : FileDescriptor H F δ) (v : Vfs H F δ) :
    OpenAlone (newDescriptor res file' { s with vfs := v }).2 fd file := by
  obtain ⟨p, hp, hlive, halone⟩ := h
  obtain ⟨hheap, -, hslot, hold, -, hother, -⟩ :=
    newDescriptor_spec (s := { s with vfs := v }) hres file'
  have hpres : p ≠ res := by
    rintro rfl
    rw [hlive] at hres
    cases hres
  have hfd : fd ≠ (Model.newDescriptor res file' { s with vfs := v }).1 := by
    intro heq
    obtain rfl := hold p (heq ▸ hp)
    rw [hlive] at hzero
    cases hzero
  refine ⟨p, (hother fd hfd).trans hp, ?_, fun k hk => ?_⟩
  · rw [hheap, Function.update_of_ne hpres]
    exact hlive
  · by_cases hnew : k = (Model.newDescriptor res file' { s with vfs := v }).1
    · rw [hnew, hslot]
      exact fun heq => hpres (Option.some.inj heq).symm
    · rw [hother k hnew]
      exact halone k hk

/-- INTERNAL: another descriptor is closed. -/
theorem OpenAlone.close (h : OpenAlone s fd file) {k q : ℕ} (hk : k ≠ fd)
    (hq : s.descriptorList[k]? = some q) (hlist : t.descriptorList = s.descriptorList)
    (hheap : t.heap = Function.update s.heap q none) : OpenAlone t fd file := by
  obtain ⟨p, hp, hlive, halone⟩ := h
  have hpq : p ≠ q := by
    rintro rfl
    exact halone k hk hq
  refine ⟨p, by rw [hlist]; exact hp, ?_, by rw [hlist]; exact halone⟩
  rw [hheap, Function.update_of_ne hpq]
  exact hlive

/-- INTERNAL: a call with a descriptor keeps the vnodes and the list, and frees at most the object
of the descriptor that it closes. -/
theorem sysFdRun_keeps (hzero : s.heap 0 = none) {c : SysFdCall} {r : SysFdResult}
    (hrun : sysFdRun s c = some (r, t)) :
    t.descriptorList = s.descriptorList ∧ t.vfs.nodes = s.vfs.nodes ∧
      (t.heap = s.heap ∨ c.closes = true ∧ ∃ k q : ℕ, c.fd = k ∧
        s.descriptorList[k]? = some q ∧ t.heap = Function.update s.heap q none) := by
  obtain rfl | ⟨k, file', hk, hs⟩ := sysFdRun_cases hzero hrun
  · exact ⟨rfl, rfl, .inl rfl⟩
  · have hrun' : c.runWith (k : ℤ) s = some (r, t) := hk ▸ hrun
    cases hc : c.closes with
    | false =>
      have haction : FileAction file' fun fd s => c.runWith (fd : ℤ) s := fileAction_runWith hc
      obtain ⟨g, hg⟩ := haction
      obtain ⟨r', -, hr'⟩ := Option.map_eq_some_iff.mp ((hg k s hs).symm.trans hrun')
      obtain ⟨-, rfl⟩ := Prod.mk.inj hr'
      exact ⟨rfl, rfl, .inl rfl⟩
    | true =>
      obtain ⟨ebx, rfl⟩ : ∃ ebx, c = .close ebx := by
        cases c with
        | close ebx => exact ⟨ebx, rfl⟩
        | _ => exact absurd hc (by simp [SysFdCall.closes])
      have hclose : sysClose (k : ℤ) s = some (r, t) := hrun'
      rw [sysClose, fdIndex_natCast, Option.bind_eq_bind, Option.bind_some] at hclose
      obtain ⟨-, -, hrest⟩ := Option.bind_eq_some_iff.mp hclose
      obtain ⟨t', hclosed, hret⟩ := Option.bind_eq_some_iff.mp hrest
      obtain rfl : t' = t := (Prod.mk.inj (Option.some.inj hret)).2
      obtain ⟨q, hq, hfree⟩ := Option.bind_eq_some_iff.mp hclosed
      obtain ⟨file'', -, hfreed⟩ := Option.bind_eq_some_iff.mp hfree
      obtain rfl := Option.some.inj hfreed
      exact ⟨rfl, rfl, .inr ⟨rfl, k, q, hk, hq, rfl⟩⟩

/-! ## Calls -/

/-- A call with a path, or one with a descriptor. -/
inductive FileCall where
  | path (c : EntryCall)
  | descriptor (c : SysFdCall)

/-- One call.  A call that faults leaves the state. -/
def fileStep (c : FileCall) (s : FileTable H F δ) : FileTable H F δ :=
  match c with
  | .path c =>
    match entryRun c s with
    | .error _ => s
    | .ok r => r.2
  | .descriptor c =>
    match sysFdRun s c with
    | none => s
    | some r => r.2

/-- `kmalloc` returns a pointer to no live object, and the descriptors `0` and `1` are not
closed. -/
def FileCall.Valid : FileCall → FileTable H F δ → Prop
  | .path (.openFile res _ _), s => res ≠ 0 ∧ s.heap res = none
  | .path _, _ => True
  | .descriptor c, _ => c.closes = true → c.fd ≠ 0 ∧ c.fd ≠ 1

variable {b : BootDrivers H F δ} {root : VfsOperations H F δ} {handle stdin stdout : H}

/-- What holds from the start on: the devices are in the tree, and `0` and `1` are open on
them. -/
structure DevicesStarted (b : BootDrivers H F δ) (stdin stdout : H) (s : FileTable H F δ) :
    Prop where
  tree : ∃ d i o, DevicesMounted b stdin stdout s.vfs d i o
  zero : s.heap 0 = none
  input : OpenAlone s 0 ⟨b.asFile stdin, b.dev⟩
  output : OpenAlone s 1 ⟨b.asFile stdout, b.dev⟩

/-- INTERNAL: only vnodes change. -/
theorem DevicesStarted.congr (h : DevicesStarted b stdin stdout s)
    (htree : ∀ d i o, DevicesMounted b stdin stdout s.vfs d i o →
      DevicesMounted b stdin stdout t.vfs d i o)
    (hlist : t.descriptorList = s.descriptorList) (hheap : t.heap = s.heap) :
    DevicesStarted b stdin stdout t := by
  obtain ⟨d, i, o, hmounted⟩ := h.tree
  exact ⟨⟨d, i, o, htree d i o hmounted⟩, by rw [hheap]; exact h.zero, h.input.congr hlist hheap,
    h.output.congr hlist hheap⟩

/-- INTERNAL: a file is opened. -/
theorem DevicesStarted.newDescriptor (h : DevicesStarted b stdin stdout s) {res : ℕ}
    (hpos : res ≠ 0) (hres : s.heap res = none) (file' : FileDescriptor H F δ) {v : Vfs H F δ}
    (hgrows : Grows s.vfs v) :
    DevicesStarted b stdin stdout (newDescriptor res file' { s with vfs := v }).2 := by
  obtain ⟨d, i, o, hmounted⟩ := h.tree
  obtain ⟨hheap, hvfs, -⟩ := newDescriptor_spec (s := { s with vfs := v }) hres file'
  refine ⟨⟨d, i, o, ?_⟩, ?_, h.input.newDescriptor h.zero hres file' v,
    h.output.newDescriptor h.zero hres file' v⟩
  · rw [hvfs]
    exact hmounted.grows hgrows
  · rw [hheap, Function.update_of_ne hpos.symm]
    exact h.zero

/-- INTERNAL: what `VFS_remove` unlinks has a driver with `f_Remove`. -/
theorem DevicesMounted.vfsRemove {v v' : Vfs H F δ} {d i o : ℕ} {path : CString} {freed : List H}
    (h : DevicesMounted b stdin stdout v d i o) (hnone : b.dev.fRemove = none)
    (hremove : vfsRemove v path = some (freed, v')) : DevicesMounted b stdin stdout v' d i o := by
  have hwalk := h.grows (grows_vfsWalkPath v path)
  obtain ⟨vnode, -, hremove⟩ := Option.bind_eq_some_iff.mp hremove
  obtain ⟨node, hnode, hremove⟩ := Option.bind_eq_some_iff.mp hremove
  obtain ⟨fRemove, hdriver, hremove⟩ := Option.bind_eq_some_iff.mp hremove
  obtain ⟨removed, -, hremove⟩ := Option.bind_eq_some_iff.mp hremove
  obtain ⟨parent, -, hremove⟩ := Option.bind_eq_some_iff.mp hremove
  obtain ⟨dir, hdir, hremove⟩ := Option.bind_eq_some_iff.mp hremove
  obtain ⟨children, hunlink, hremove⟩ := Option.bind_eq_some_iff.mp hremove
  obtain ⟨-, rfl⟩ := Prod.mk.inj (Option.some.inj hremove)
  have hother : ∀ {k : ℕ} {x : H} {more : List ℕ},
      (vfsWalkPath v path).2.nodes[k]? = some ⟨x, b.dev, more⟩ → k ≠ vnode := by
    rintro k x more hk rfl
    cases Option.some.inj (hk.symm.trans hnode)
    rw [hnone] at hdriver
    cases hdriver
  obtain ⟨more, hdev⟩ := hwalk.dev
  obtain ⟨moreOut, hstdout⟩ := hwalk.stdout
  exact hwalk.unlink hdir hunlink (hother hdev) (hother hstdout)

/-- INTERNAL: a call that does not fault was performed. -/
theorem perform_of_entryRun {c : EntryCall} {r : EntryResult H × FileTable H F δ}
    (h : entryRun c s = .ok r) : c.perform s = some r := by
  unfold entryRun at h
  cases hvnode : c.vnode s.vfs with
  | none =>
    rw [hvnode] at h
    cases h
  | some node =>
    rw [hvnode] at h
    dsimp only at h
    by_cases hnull : node.driver.isNull c.op = true
    · rw [if_pos hnull] at h
      cases h
    · rw [if_neg hnull] at h
      cases hperform : c.perform s with
      | none =>
        rw [hperform] at h
        cases h
      | some r' =>
        rw [hperform] at h
        cases h
        rfl

/-- INTERNAL: a call with a path, one case for each call. -/
theorem DevicesStarted.perform (h : DevicesStarted b stdin stdout s) (hnone : b.dev.fRemove = none)
    {c : EntryCall} (hvalid : (FileCall.path c).Valid s) {r : EntryResult H × FileTable H F δ}
    (hperform : c.perform s = some r) : DevicesStarted b stdin stdout r.2 := by
  cases c with
  | openFile res path mode =>
    obtain ⟨hpos, hres⟩ := hvalid
    obtain ⟨opened, hopen, rfl⟩ := Option.map_eq_some_iff.mp hperform
    obtain ⟨vnode, -, hopen⟩ := Option.bind_eq_some_iff.mp hopen
    obtain ⟨node, -, hopen⟩ := Option.bind_eq_some_iff.mp hopen
    obtain rfl := Option.some.inj hopen
    exact h.newDescriptor hpos hres _ fun k x hk => grows_vfsWalkPath s.vfs path k x hk
  | statFile path =>
    obtain ⟨stat, hstat, rfl⟩ := Option.map_eq_some_iff.mp hperform
    obtain ⟨vnode, -, hstat⟩ := Option.bind_eq_some_iff.mp hstat
    obtain ⟨node, -, hstat⟩ := Option.bind_eq_some_iff.mp hstat
    obtain ⟨found, -, hstat⟩ := Option.bind_eq_some_iff.mp hstat
    obtain rfl := Option.some.inj hstat
    exact h.congr (fun _ _ _ hmounted => hmounted.grows (grows_vfsWalkPath s.vfs path)) rfl rfl
  | removeFile path =>
    obtain ⟨removed, hremove, rfl⟩ := Option.map_eq_some_iff.mp hperform
    exact h.congr (fun _ _ _ hmounted => hmounted.vfsRemove hnone hremove) rfl rfl
  | createFile path attributes =>
    obtain ⟨v, hcreate, rfl⟩ := Option.map_eq_some_iff.mp hperform
    refine h.congr (fun _ _ _ hmounted => hmounted.grows fun k x hk => ?_) rfl rfl
    rw [vfsCreate] at hcreate
    cases hdir : (vfsGetDirAndFname s.vfs path).1.1 with
    | none =>
      rw [hdir] at hcreate
      cases hcreate
    | some dir =>
      rw [hdir] at hcreate
      obtain ⟨parent, -, rfl⟩ := Option.map_eq_some_iff.mp hcreate
      exact grows_vfsWalkPath s.vfs _ k x hk

/-- INTERNAL: a call with a descriptor. -/
theorem DevicesStarted.sysFdRun (h : DevicesStarted b stdin stdout s) {c : SysFdCall}
    (hvalid : (FileCall.descriptor c).Valid s) {r : SysFdResult}
    (hrun : sysFdRun s c = some (r, t)) : DevicesStarted b stdin stdout t := by
  obtain ⟨hlist, hnodes, hheap⟩ := sysFdRun_keeps h.zero hrun
  obtain ⟨d, i, o, hmounted⟩ := h.tree
  have htree : DevicesMounted b stdin stdout t.vfs d i o :=
    hmounted.grows fun k x hk => ⟨[], by rw [hnodes, List.append_nil]; exact hk⟩
  obtain hheap | ⟨hcloses, k, q, hk, hq, hheap⟩ := hheap
  · exact h.congr (fun _ _ _ hm => hm.grows fun k x hk =>
      ⟨[], by rw [hnodes, List.append_nil]; exact hk⟩) hlist hheap
  · obtain ⟨hk0, hk1⟩ := hvalid hcloses
    rw [hk] at hk0 hk1
    refine ⟨⟨d, i, o, htree⟩, ?_, h.input.close (by exact_mod_cast hk0) hq hlist hheap,
      h.output.close (by exact_mod_cast hk1) hq hlist hheap⟩
    rw [hheap, Function.update_apply]
    split
    next => rfl
    next => exact h.zero

/-- INTERNAL: **one call** keeps the devices and their descriptors. -/
theorem started_step (hnone : b.dev.fRemove = none) (c : FileCall) (s : FileTable H F δ)
    (h : DevicesStarted b stdin stdout s) (hvalid : c.Valid s) :
    DevicesStarted b stdin stdout (fileStep c s) := by
  cases c with
  | path c =>
    cases hrun : entryRun c s with
    | error fault =>
      simp only [fileStep, hrun]
      exact h
    | ok r =>
      simp only [fileStep, hrun]
      exact h.perform hnone hvalid (perform_of_entryRun hrun)
  | descriptor c =>
    cases hrun : Model.sysFdRun s c with
    | none =>
      simp only [fileStep, hrun]
      exact h
    | some r =>
      simp only [fileStep, hrun]
      exact h.sysFdRun hvalid hrun

/-! ## The start -/

/-- INTERNAL: a directory of another driver is the last child of the root. -/
theorem vfsInitChild_spec {v : Vfs H F δ} {node : VfsNode H F δ}
    (hroot : v.nodes[vfsRoot]? = some node) (driver : VfsOperations H F δ) (x : H) :
    ∃ v', vfsInitChild driver x v = some (v.nodes.length, v') ∧ v'.volumes = v.volumes ∧
      v'.nodes[vfsRoot]? = some { node with children := node.children ++ [v.nodes.length] } ∧
      v'.nodes[v.nodes.length]? = some ⟨x, driver, []⟩ ∧ Grows v v' := by
  have hpos : 0 < v.nodes.length := (List.getElem?_eq_some_iff.mp hroot).1
  have hmade : vfsInitChild driver x v =
      some (v.nodes.length, withChild v vfsRoot { node with driver := driver } x) := by
    rw [vfsInitChild, hroot, Option.bind_eq_bind, Option.bind_some]
    have hnew : (v.nodes ++ [(⟨x, node.driver, []⟩ : VfsNode H F δ)]).modify v.nodes.length
        (fun made => { made with driver := driver }) = v.nodes ++ [⟨x, driver, []⟩] := by
      refine List.ext_getElem? fun k => ?_
      rw [List.getElem?_modify]
      obtain hlt | rfl | hgt := lt_trichotomy k v.nodes.length
      · simp [List.getElem?_append_left hlt, hlt.ne']
      · simp
      · rw [List.getElem?_eq_none (by simp; omega), List.getElem?_eq_none (by simp; omega)]
        rfl
    show some (v.nodes.length, vfsInsertVnode ⟨(v.nodes ++
      [(⟨x, node.driver, []⟩ : VfsNode H F δ)]).modify v.nodes.length
        (fun made => { made with driver := driver }), v.volumes⟩ vfsRoot v.nodes.length) = _
    rw [hnew]
    rfl
  refine ⟨_, hmade, rfl, ?_, ?_, grows_withChild _ _ _⟩
  · rw [withChild_old hpos, hroot, Option.map_some, if_pos rfl]
  · unfold withChild vfsInsertVnode vfsMakeVnode
    rw [List.getElem?_modify, List.getElem?_concat_length]
    simp [hpos.ne]

/-- INTERNAL: a name that is not cached becomes a new child. -/
theorem vfsLookup_new {v : Vfs H F δ} {p : ℕ} (name : CString) {dir : VfsNode H F δ} {x : H}
    (hdir : v.nodes[p]? = some dir) (hnone : dir.children.find? (comparable v name) = none)
    (hlook : dir.driver.fLookup dir.handle name v.volumes = some x) :
    vfsLookup v p name = (some v.nodes.length, withChild v p dir x) := by
  obtain ⟨child, hfind, -⟩ | ⟨-, hmiss, -⟩ | ⟨y, -, hfound, hrun⟩ := vfsLookup_cases hdir name
  · exact absurd (hnone.symm.trans hfind) (by simp)
  · exact absurd (hmiss.symm.trans hlook) (by simp)
  · obtain rfl := Option.some.inj (hfound.symm.trans hlook)
    exact hrun

/-- The children of the root before the two directories are none, or the one called `LAKEOS`. -/
def OnlyLakeos (v : Vfs H F δ) : Prop :=
  ∃ node, v.nodes[vfsRoot]? = some node ∧
    ∀ x ∈ node.children, ∃ other, v.nodes[x]? = some other ∧
      ∀ w, nodeName other w = nameLakeos

/-- INTERNAL: `VFS_init_virt` and `VFS_init_dev`.
SRCLINE: vfs.c:45-78 -/
theorem started_of_init (hnames : BootNames b root handle stdin stdout) {fd0 fd1 : ℕ}
    (h0 : fd0 ≠ 0) (h1 : fd1 ≠ 0) (hne : fd0 ≠ fd1) (hempty : s.descriptorList = [])
    (hheap : s.heap = fun _ => none) (honly : OnlyLakeos s.vfs) :
    ∃ v t, vfsInitVirt b s.vfs = some v ∧ vfsInitDev b fd0 fd1 { s with vfs := v } = some t ∧
      DevicesStarted b stdin stdout t := by
  obtain ⟨node, hroot, hchildren⟩ := honly
  obtain ⟨v, hvirt, -, hrootV, hnewV, hgrowsV⟩ := vfsInitChild_spec hroot b.vfm b.vfmRoot
  obtain ⟨v₁, hdev, -, hroot₁, hnew₁, hgrows₁⟩ := vfsInitChild_spec hrootV b.dev b.devRoot
  -- the two files
  have hstdin := vfsLookup_new nameStdin hnew₁ rfl (hnames.stdin v₁.volumes).1
  have hdir₂ : (withChild v₁ v.nodes.length ⟨b.devRoot, b.dev, []⟩ stdin).nodes[v.nodes.length]? =
      some ⟨b.devRoot, b.dev, [] ++ [v₁.nodes.length]⟩ := withChild_parent hnew₁
  have hstdin₂ := withChild_new hnew₁ stdin
  generalize hv₂ : withChild v₁ v.nodes.length ⟨b.devRoot, b.dev, []⟩ stdin = v₂ at *
  have hnone : ([] ++ [v₁.nodes.length]).find? (comparable v₂ nameStdout) = none := by
    refine List.find?_eq_none.mpr fun y hy => ?_
    rw [List.nil_append, List.mem_singleton] at hy
    rw [hy, ← nodeMatches_eq, nodeMatches, hstdin₂]
    dsimp only
    rw [(hnames.stdin v₂.volumes).2]
    decide
  have hstdout := vfsLookup_new nameStdout hdir₂ hnone (hnames.stdout v₂.volumes).1
  have hdir₃ : (withChild v₂ v.nodes.length ⟨b.devRoot, b.dev, [] ++ [v₁.nodes.length]⟩
      stdout).nodes[v.nodes.length]? =
        some ⟨b.devRoot, b.dev, ([] ++ [v₁.nodes.length]) ++ [v₂.nodes.length]⟩ :=
    withChild_parent hdir₂
  have hstdout₃ := withChild_new hdir₂ stdout
  have hgrows₃ := grows_withChild (s := v₂) v.nodes.length
    ⟨b.devRoot, b.dev, [] ++ [v₁.nodes.length]⟩ stdout
  obtain ⟨more, hstdin₃⟩ := hgrows₃ _ _ hstdin₂
  have hgrows₂ : Grows v₁ v₂ := hv₂ ▸ grows_withChild _ _ _
  generalize withChild v₂ v.nodes.length ⟨b.devRoot, b.dev, [] ++ [v₁.nodes.length]⟩ stdout = v₃
    at *
  have hrun : vfsInitDev b fd0 fd1 { s with vfs := v } = some (newDescriptor fd1
      ⟨b.asFile stdout, b.dev⟩ (newDescriptor fd0 ⟨b.asFile stdin, b.dev⟩
        { s with vfs := v₃ }).2).2 := by
    rw [vfsInitDev]
    simp only [Option.bind_eq_bind, hdev, hstdin, hstdout, hstdin₃, hstdout₃, Option.bind_some,
      Option.pure_def]
  refine ⟨v, _, by rw [vfsInitVirt, hvirt]; rfl, hrun, ?_⟩
  -- the tree
  have hgrows₁₃ : Grows v₁ v₃ := hgrows₂.trans hgrows₃
  have htree : DevicesMounted b stdin stdout v₃ v.nodes.length v₁.nodes.length v₂.nodes.length := by
    obtain ⟨moreRoot, hroot₃⟩ := hgrows₁₃ _ _ hroot₁
    refine ⟨⟨_, node.children ++ [s.vfs.nodes.length], moreRoot, hroot₃, ?_, fun x hx => ?_⟩,
      ⟨[], hdir₃⟩, ⟨more, hstdin₃⟩, ⟨[], hstdout₃⟩⟩
    · simp only [List.append_assoc, List.cons_append, List.nil_append]
    · rw [List.mem_append, List.mem_singleton] at hx
      obtain hx | rfl := hx
      · obtain ⟨other, hother, hname⟩ := hchildren x hx
        obtain ⟨_, hother'⟩ := (hgrowsV.trans (hgrows₁.trans hgrows₁₃)) _ _ hother
        refine ⟨_, hother', fun w => ?_⟩
        show strcmp (nodeName other w) nameDev ≠ 0
        rw [hname w]
        decide
      · obtain ⟨_, hvirt'⟩ := (hgrows₁.trans hgrows₁₃) _ _ hnewV
        refine ⟨_, hvirt', fun w => ?_⟩
        show strcmp (b.vfm.fNodeName b.vfmRoot w) nameDev ≠ 0
        rw [hnames.virt w]
        decide
  -- the two descriptors
  have hfirst : newDescriptor fd0 ⟨b.asFile stdin, b.dev⟩ { s with vfs := v₃ } = (0,
      ⟨v₃, [fd0], Function.update (fun _ => none) fd0 (some ⟨b.asFile stdin, b.dev⟩)⟩) := by
    rw [newDescriptor, hempty, hheap]
    rfl
  have hsecond : newDescriptor fd1 ⟨b.asFile stdout, b.dev⟩
      ⟨v₃, [fd0], Function.update (fun _ => none) fd0 (some ⟨b.asFile stdin, b.dev⟩)⟩ = (1,
      ⟨v₃, [fd0, fd1], Function.update (Function.update (fun _ => none) fd0
        (some ⟨b.asFile stdin, b.dev⟩)) fd1 (some ⟨b.asFile stdout, b.dev⟩)⟩) := by
    have hslot : (fd0 == 0) = false := beq_false_of_ne h0
    simp [newDescriptor, vfsAddDescriptor, List.findIdx_cons, hslot]
  rw [hfirst, hsecond]
  refine ⟨⟨_, _, _, htree⟩, ?_, ⟨fd0, rfl, ?_, fun k hk => ?_⟩, ⟨fd1, rfl, ?_, fun k hk => ?_⟩⟩
  · dsimp only
    rw [Function.update_of_ne h1.symm, Function.update_of_ne h0.symm]
  · dsimp only
    rw [Function.update_of_ne hne, Function.update_self]
  · rcases k with _ | _ | k
    · exact absurd rfl hk
    · simp [hne.symm]
    · simp
  · exact Function.update_self _ _ _
  · rcases k with _ | _ | k
    · simp [hne]
    · exact absurd rfl hk
    · simp

/-- INTERNAL: the state that `VFS_init_rootfs` leaves.
SRCLINE: vfs.c:80-101 -/
theorem vfsInitRootfs_started (hnames : BootNames b root handle stdin stdout) {fd0 fd1 : ℕ}
    (h0 : fd0 ≠ 0) (h1 : fd1 ≠ 0) (hne : fd0 ≠ fd1) {volumes : δ} {c c' : BootConsole}
    (h : vfsInitRootfs b fd0 fd1 c (rootMounted root handle volumes) = some (c', t)) :
    DevicesStarted b stdin stdout t := by
  have hroot : (rootMounted root handle volumes : FileTable H F δ).vfs.nodes[vfsRoot]? =
      some ⟨handle, root, []⟩ := rfl
  have hafter : ∀ {v : Vfs H F δ} {c₁ : BootConsole}, OnlyLakeos v →
      ((vfsInitVirt b v).bind fun v => (vfsInitDev b fd0 fd1
        { (rootMounted root handle volumes : FileTable H F δ) with vfs := v }).bind
          fun s => some (c₁, s)) = some (c', t) → DevicesStarted b stdin stdout t := by
    intro v c₁ honly hrun
    obtain ⟨v', t', hvirt, hdev, hstarted⟩ := started_of_init
      (s := { (rootMounted root handle volumes : FileTable H F δ) with vfs := v })
      hnames h0 h1 hne rfl rfl honly
    rw [show vfsInitVirt b v = some v' from hvirt, Option.bind_some,
      show vfsInitDev b fd0 fd1
        { (rootMounted root handle volumes : FileTable H F δ) with vfs := v' } = some t' from hdev,
      Option.bind_some] at hrun
    obtain ⟨-, rfl⟩ := Prod.mk.inj (Option.some.inj hrun)
    exact hstarted
  obtain ⟨child, hfind, -⟩ | ⟨-, -, hrun⟩ | ⟨x, -, hfound, hrun⟩ := vfsLookup_cases hroot nameLakeos
  · exact absurd hfind (by simp)
  · rw [vfsInitRootfs, hrun] at h
    dsimp only at h
    rw [hroot] at h
    cases hinput : c.input with
    | nil => simp [BootConsole.print, hinput] at h
    | cons ans input =>
      simp only [BootConsole.print, hinput, Option.bind_eq_bind, Option.bind_some,
        Option.pure_def] at h
      exact hafter ⟨_, rfl, by simp⟩ h
  · rw [vfsInitRootfs, hrun] at h
    simp only [Option.bind_eq_bind, Option.bind_some, Option.pure_def] at h
    refine hafter ⟨_, withChild_parent hroot, fun y hy => ?_⟩ h
    rw [List.nil_append, List.mem_singleton] at hy
    subst hy
    exact ⟨_, withChild_new hroot x, fun w => hnames.lakeos x _ w hfound⟩

/-! ## Runs -/

variable {C : Type} {table : DriverTable} {devs : List (BootDevice C H)}
  {tables : ℕ → VfsOperations H F δ}

/-- INTERNAL: the devices in every state of a run. -/
theorem started_run
    (hnames : ∀ r ∈ mountable table devs, BootNames b (tables r.driver) r.handle stdin stdout)
    {fd0 fd1 fuel : ℕ} (h0 : fd0 ≠ 0) (h1 : fd1 ≠ 0) (hne : fd0 ≠ fd1) {volumes : δ}
    {c c' : BootConsole}
    (h : vfsInit b table devs tables fd0 fd1 fuel c volumes = some (c', s)) {calls : List FileCall}
    (hvalid : EachCall fileStep FileCall.Valid calls s) :
    DevicesStarted b stdin stdout (after fileStep calls s) ∧
      ∃ r ∈ mountable table devs, BootNames b (tables r.driver) r.handle stdin stdout := by
  obtain ⟨⟨r, c₁⟩, hroot, hrootfs⟩ := Option.bind_eq_some_iff.mp h
  have hmem := vfsInitRoot_mem hroot
  have hstarted := vfsInitRootfs_started (hnames r hmem) h0 h1 hne hrootfs
  exact ⟨(throughout_of_invariant (started_step (hnames r hmem).noRemove) hstarted hvalid).last,
    r, hmem, hnames r hmem⟩

/-- **The descriptors `0` and `1` stay on the keyboard and the screen** in every run of calls after
`VFS_init` that closes neither, whatever else is opened, closed, created and removed.
SRCLINE: vfs.c:52-136, vfs.c:237-328 -/
theorem stdio_run
    (hnames : ∀ r ∈ mountable table devs, BootNames b (tables r.driver) r.handle stdin stdout)
    {fd0 fd1 fuel : ℕ} (h0 : fd0 ≠ 0) (h1 : fd1 ≠ 0) (hne : fd0 ≠ fd1) {volumes : δ}
    {c c' : BootConsole}
    (h : vfsInit b table devs tables fd0 fd1 fuel c volumes = some (c', s))
    (calls : List FileCall) (hvalid : EachCall fileStep FileCall.Valid calls s) :
    descriptorAt (after fileStep calls s) 0 = some ⟨b.asFile stdin, b.dev⟩ ∧
      descriptorAt (after fileStep calls s) 1 = some ⟨b.asFile stdout, b.dev⟩ := by
  obtain ⟨hstarted, -⟩ := started_run hnames h0 h1 hne h hvalid
  exact ⟨hstarted.input.descriptorAt, hstarted.output.descriptorAt⟩

/-- **The paths of the devices lead to them** in every run of calls after `VFS_init`, whatever the
disk has under these names: the walk is answered by the cache and changes nothing.
SRCLINE: vfs.c:52-136, vfs.c:176-232, vfs.c:303-316 -/
theorem device_paths_run
    (hnames : ∀ r ∈ mountable table devs, BootNames b (tables r.driver) r.handle stdin stdout)
    {fd0 fd1 fuel : ℕ} (h0 : fd0 ≠ 0) (h1 : fd1 ≠ 0) (hne : fd0 ≠ fd1) {volumes : δ}
    {c c' : BootConsole}
    (h : vfsInit b table devs tables fd0 fd1 fuel c volumes = some (c', s))
    (calls : List FileCall) (hvalid : EachCall fileStep FileCall.Valid calls s) (path : CString) :
    (components path = [nameDev, nameStdin] →
      ∃ vnode more, vfsWalkPath (after fileStep calls s).vfs path =
          (some vnode, (after fileStep calls s).vfs) ∧
        (after fileStep calls s).vfs.nodes[vnode]? = some ⟨stdin, b.dev, more⟩) ∧
      (components path = [nameDev, nameStdout] →
        ∃ vnode more, vfsWalkPath (after fileStep calls s).vfs path =
            (some vnode, (after fileStep calls s).vfs) ∧
          (after fileStep calls s).vfs.nodes[vnode]? = some ⟨stdout, b.dev, more⟩) := by
  obtain ⟨hstarted, r, -, hr⟩ := started_run hnames h0 h1 hne h hvalid
  obtain ⟨d, i, o, hmounted⟩ := hstarted.tree
  obtain ⟨more, hstdin⟩ := hmounted.stdin
  obtain ⟨more', hstdout⟩ := hmounted.stdout
  obtain ⟨hin, hout⟩ := hmounted.walk hr path
  exact ⟨fun hpath => ⟨i, more, hin hpath, hstdin⟩, fun hpath => ⟨o, more', hout hpath, hstdout⟩⟩

end

/-- INTERNAL: a FAT volume gives `LAKEOS` its name, as `BootNames` asks of the driver of the
root. -/
theorem fat_lakeos {F : Type} {ctx : FatContext} {junk : Uninit}
    {driver : VfsOperations FatHandle F Disk} (hfat : LooksUpFat ctx junk driver)
    {dir file : FatHandle} {d d' : Disk} (hfound : driver.fLookup dir nameLakeos d = some file) :
    driver.fNodeName file d' = nameLakeos := by
  rw [hfat.name_eq hfound]
  rfl

/-! ## A disk without files -/

/-- A driver without files, whose root has a name. -/
def bareDisk (name : CString) : VfsOperations (Option ℕ) (Option ℕ) Unit where
  fLookup := fun _ _ _ => none
  fCreate := fun _ _ _ v => v
  fOpen := fun x _ v => (x, v)
  fClose := fun _ v => v
  fRead := fun _ => some fun _ v => ((0, []), v)
  fWrite := fun _ => some fun _ v => (0, v)
  fNodeName := fun _ _ => name

/-- The driver of the devices with its two files. -/
def deviceFiles : BootDrivers (Option ℕ) (Option ℕ) Unit where
  vfm := bareDisk nameVirt
  dev := devInit ⟨0, 0, 0, 0, 0, 0⟩ (fun _ => ⟨0, 0, 0, 0, 0, 0⟩) (fun _ v => ((0, []), v))
    (fun _ v => (0, v))
  vfmRoot := none
  devRoot := none
  asFile := id

theorem deviceFiles_names : BootNames deviceFiles (bareDisk []) none (some 1) (some 0) where
  lakeos := fun _ _ _ hfound => absurd hfound (by simp [bareDisk])
  virt := fun _ => rfl
  dev := fun _ => rfl
  stdin := fun _ => ⟨rfl, rfl⟩
  stdout := fun _ => ⟨rfl, rfl⟩
  noRemove := rfl

/-- One table, whose `f_Mount` takes every device. -/
def oneTable : DriverTable := ⟨fun _ => 0, 0, 1⟩

def oneDevice : BootDevice Unit (Option ℕ) := ⟨[], ⟨fun _ => some (), fun _ _ => none⟩⟩

def bareTables (_ : ℕ) : VfsOperations (Option ℕ) (Option ℕ) Unit := bareDisk []

theorem oneDevice_names : ∀ r ∈ mountable oneTable [oneDevice],
    BootNames deviceFiles (bareTables r.driver) r.handle (some 1) (some 0) := by
  intro r hr
  obtain rfl : r = ⟨none, 0⟩ := List.mem_singleton.mp hr
  exact deviceFiles_names

theorem oneDevice_starts : ∃ c s, vfsInit deviceFiles oneTable [oneDevice] bareTables 1 2 2
    ⟨[charN, charY, charY], []⟩ () = some (c, s) :=
  ⟨_, _, rfl⟩

theorem stdio_run_installed : ∃ c s,
    vfsInit deviceFiles oneTable [oneDevice] bareTables 1 2 2 ⟨[charN, charY, charY], []⟩ () =
        some (c, s) ∧
      descriptorAt (after fileStep [.descriptor (.read 0 4)] s) 0 =
        some ⟨some 1, deviceFiles.dev⟩ ∧
      descriptorAt (after fileStep [.descriptor (.read 0 4)] s) 1 =
        some ⟨some 0, deviceFiles.dev⟩ := by
  obtain ⟨c, s, h⟩ := oneDevice_starts
  exact ⟨c, s, h, stdio_run oneDevice_names (by decide) (by decide) (by decide) h
    [.descriptor (.read 0 4)] ⟨fun hcloses => absurd hcloses (by decide), trivial⟩⟩

theorem device_paths_run_installed : ∃ c s,
    vfsInit deviceFiles oneTable [oneDevice] bareTables 1 2 2 ⟨[charN, charY, charY], []⟩ () =
        some (c, s) ∧
      ∃ vnode more, vfsWalkPath (after fileStep [.path (.createFile nameDev 0)] s).vfs
          (slash :: nameDev ++ slash :: nameStdin) =
            (some vnode, (after fileStep [.path (.createFile nameDev 0)] s).vfs) ∧
        (after fileStep [.path (.createFile nameDev 0)] s).vfs.nodes[vnode]? =
          some ⟨some 1, deviceFiles.dev, more⟩ := by
  obtain ⟨c, s, h⟩ := oneDevice_starts
  exact ⟨c, s, h, (device_paths_run oneDevice_names (by decide) (by decide) (by decide) h
    [.path (.createFile nameDev 0)] ⟨trivial, trivial⟩
    (slash :: nameDev ++ slash :: nameStdin)).1 (by decide)⟩

end LakeOS.Analysis
