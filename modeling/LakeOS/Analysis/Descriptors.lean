import LakeOS.Analysis.VnodeCache

/-!
# File descriptors

`FdState.opened` records what each open descriptor was opened on.  A call of `VFS_close`
frees the `t_FileDescriptor` and leaves its address in `descriptor_list`, so the table
agrees with the record exactly for as long as no descriptor is closed.
-/

set_option autoImplicit false

namespace LakeOS.Analysis

open LakeOS.Library LakeOS.Model

variable {H F δ : Type}

/-- The calls on descriptors.  Where one allocates a `t_FileDescriptor`, `res` is the
pointer that `kmalloc` returns. -/
inductive FdCall (H F δ : Type) where
  | openFile (res : ℕ) (path : CString) (mode : ℕ)
  | addFile (res : ℕ) (file : FileDescriptor H F δ)
  | closeFile (fd : ℕ)
  | readFile (fd len : ℕ)
  | writeFile (fd : ℕ) (data : List Byte)

/-- The table next to what each open descriptor was opened on, and the descriptors that
were ever returned. -/
structure FdState (H F δ : Type) where
  table : FileTable H F δ
  opened : ℕ → Option (FileDescriptor H F δ)
  returned : List ℕ

/-- The table after a call, and the descriptor that the call returns. -/
def FdCall.run (s : FileTable H F δ) : FdCall H F δ → Option (Option ℕ × FileTable H F δ)
  | .openFile res path mode => (vfsOpen res path mode s).map fun r => (some r.1, r.2)
  | .addFile res file =>
      let r := newDescriptor res file s
      some (some r.1, r.2)
  | .closeFile fd => (vfsClose fd s).map fun t => (none, t)
  | .readFile fd len => (vfsRead fd len s).map fun r => (none, r.2)
  | .writeFile fd data => (vfsWrite fd data s).map fun r => (none, r.2)

/-- What a call records: a returned descriptor is open on the file that was put at the
pointer of `kmalloc`, a closed one is not open. -/
def FdCall.record (s : FdState H F δ) (fd : Option ℕ) (t : FileTable H F δ) :
    FdCall H F δ → FdState H F δ
  | .openFile res _ _ | .addFile res _ =>
      match fd with
      | none => { s with table := t }
      | some fd => ⟨t, Function.update s.opened fd (t.heap res), fd :: s.returned⟩
  | .closeFile fd => { s with table := t, opened := Function.update s.opened fd none }
  | .readFile .. | .writeFile .. => { s with table := t }

/-- One call.  A call that follows a null or dangling pointer leaves the state. -/
def fdStep (c : FdCall H F δ) (s : FdState H F δ) : FdState H F δ :=
  match c.run s.table with
  | none => s
  | some r => c.record s r.1 r.2

/-- `kmalloc` returns a pointer to no live object, a path that is opened exists, and a
descriptor that is used was returned. -/
def FdCall.Valid : FdCall H F δ → FdState H F δ → Prop
  | .openFile res path mode, s =>
      res ≠ 0 ∧ s.table.heap res = none ∧ (vfsOpen res path mode s.table).isSome
  | .addFile res _, s => res ≠ 0 ∧ s.table.heap res = none
  | .closeFile fd, s | .readFile fd _, s | .writeFile fd _, s => fd ∈ s.returned

/-- Every open descriptor reaches the file that it was opened on, and the slot of every
other descriptor is empty. -/
structure TableSound (s : FdState H F δ) : Prop where
  reaches : ∀ fd file, s.opened fd = some file → descriptorAt s.table fd = some file
  empty : ∀ fd, s.opened fd = none → ∀ p, s.table.descriptorList[fd]? = some p → p = 0

/-- A descriptor that is returned is the least one that is not open: it differs from all
that are open, and the slots of closed ones are used first. -/
def ReturnsLeast (c : FdCall H F δ) (s : FdState H F δ) : Prop :=
  ∀ fd t, c.run s.table = some (some fd, t) →
    s.opened fd = none ∧ ∀ fd' < fd, s.opened fd' ≠ none

/-- The call closes no descriptor. -/
def KeepsOpen : FdCall H F δ → FdState H F δ → Prop
  | .closeFile _, _ => False
  | _, _ => True

/-- What holds after any valid call: no object lies at `NULL`, and no slot that was
returned becomes empty again. -/
structure TableFilled (s : FdState H F δ) : Prop where
  heap_zero : s.table.heap 0 = none
  filled : ∀ fd ∈ s.returned, ∃ p, s.table.descriptorList[fd]? = some p ∧ p ≠ 0

/-! ## The slot that is returned -/

section Add

variable (file : ℕ) (s : FileTable H F δ)

/-- INTERNAL: the first empty slot, or a new one behind the others, is filled.
SRCLINE: vfs.c:237-250 -/
theorem vfsAddDescriptor_spec :
    let r := vfsAddDescriptor file s
    r.2.heap = s.heap ∧ r.2.vfs = s.vfs ∧ r.2.descriptorList[r.1]? = some file ∧
    (∀ p, s.descriptorList[r.1]? = some p → p = 0) ∧
    (∀ fd < r.1, ∃ p, s.descriptorList[fd]? = some p ∧ p ≠ 0) ∧
    ∀ fd ≠ r.1, r.2.descriptorList[fd]? = s.descriptorList[fd]? := by
  intro r
  have hbefore : ∀ fd < s.descriptorList.findIdx (· == 0), ∀ hfd : fd < s.descriptorList.length,
      ∃ p, s.descriptorList[fd]? = some p ∧ p ≠ 0 := by
    intro fd hlt hfd
    have hne := List.not_of_lt_findIdx hlt
    exact ⟨s.descriptorList[fd], List.getElem?_eq_getElem hfd, by simpa using hne⟩
  by_cases hi : s.descriptorList.findIdx (· == 0) < s.descriptorList.length
  · have hr : r = (s.descriptorList.findIdx (· == 0), { s with
        descriptorList := s.descriptorList.set (s.descriptorList.findIdx (· == 0)) file }) :=
      if_pos hi
    rw [hr]
    refine ⟨rfl, rfl, ?_, fun p hp => ?_, fun fd hfd => hbefore fd hfd (hfd.trans hi),
      fun fd hfd => ?_⟩
    · exact List.getElem?_set_self hi
    · have hzero : (s.descriptorList[s.descriptorList.findIdx (· == 0)] == 0) = true :=
        List.findIdx_getElem (w := hi)
      rw [List.getElem?_eq_getElem hi] at hp
      rw [← Option.some.inj hp]
      exact beq_iff_eq.mp hzero
    · exact List.getElem?_set_ne hfd.symm
  · have hr : r = (s.descriptorList.length, { s with
        descriptorList := s.descriptorList ++ [file] }) := if_neg hi
    rw [hr]
    refine ⟨rfl, rfl, ?_, fun p hp => ?_, fun fd hfd => hbefore fd (by omega) hfd,
      fun fd hfd => ?_⟩
    · exact List.getElem?_concat_length
    · rw [List.getElem?_eq_none le_rfl] at hp
      cases hp
    · obtain hlt | hge := Nat.lt_or_ge fd s.descriptorList.length
      · exact List.getElem?_append_left hlt
      · rw [List.getElem?_eq_none hge, List.getElem?_eq_none]
        rw [List.length_append, List.length_singleton]
        omega

end Add

/-- INTERNAL: a new descriptor is open on its file, in a slot that was empty or new. -/
theorem newDescriptor_spec {s : FileTable H F δ} {res : ℕ} (hres : s.heap res = none)
    (file : FileDescriptor H F δ) :
    let r := newDescriptor res file s
    r.2.heap = Function.update s.heap res (some file) ∧ r.2.vfs = s.vfs ∧
    r.2.descriptorList[r.1]? = some res ∧
    (∀ p, s.descriptorList[r.1]? = some p → p = 0) ∧
    (∀ fd < r.1, ∃ p, s.descriptorList[fd]? = some p ∧ p ≠ 0) ∧
    (∀ fd ≠ r.1, r.2.descriptorList[fd]? = s.descriptorList[fd]?) ∧
    descriptorAt r.2 r.1 = some file ∧
    ∀ fd ≠ r.1, ∀ file', descriptorAt s fd = some file' → descriptorAt r.2 fd = some file' := by
  intro r
  obtain ⟨hheap, hvfs, hslot, hold, hless, hother⟩ :=
    vfsAddDescriptor_spec res { s with heap := Function.update s.heap res (some file) }
  refine ⟨hheap, hvfs, hslot, hold, hless, hother, ?_, fun fd hfd file' hfile => ?_⟩
  · have hread : descriptorAt r.2 r.1 = r.2.heap res := by
      rw [descriptorAt, show r.2.descriptorList[r.1]? = some res from hslot]
      rfl
    exact hread.trans ((congrFun hheap res).trans (Function.update_self _ _ _))
  · obtain ⟨p, hp, hlive⟩ := Option.bind_eq_some_iff.mp hfile
    have hne : p ≠ res := fun heq => by
      rw [heq, hres] at hlive
      cases hlive
    have hslot' : r.2.descriptorList[fd]? = some p := (hother fd hfd).trans hp
    rw [descriptorAt, hslot']
    exact (congrFun hheap p).trans ((Function.update_of_ne hne _ _).trans hlive)

/-! ## One call -/

section Step

variable {s : FdState H F δ}

/-- INTERNAL: opening a file keeps the table sound, and returns the least descriptor that
is not open.  `v` are the vnodes and volumes at the time the descriptor is added. -/
theorem newDescriptor_sound (hfill : TableFilled s) (hsound : TableSound s) {res : ℕ}
    (hres : s.table.heap res = none) (file : FileDescriptor H F δ) (v : Vfs H F δ) :
    let r := newDescriptor res file { s.table with vfs := v }
    TableSound ⟨r.2, Function.update s.opened r.1 (r.2.heap res), r.1 :: s.returned⟩ ∧
    s.opened r.1 = none ∧ ∀ fd < r.1, s.opened fd ≠ none := by
  intro r
  obtain ⟨hheap, -, hslot, hold, hless, hother, hhere, hkeep⟩ :=
    newDescriptor_spec (s := { s.table with vfs := v }) hres file
  have hopen : r.2.heap res = some file :=
    (congrFun hheap res).trans (Function.update_self _ _ _)
  refine ⟨⟨fun fd file' hfd => ?_, fun fd hfd p hp => ?_⟩, ?_, fun fd hfd hclosed => ?_⟩
  · dsimp only at hfd
    by_cases heq : fd = r.1
    · rw [heq, Function.update_self, hopen] at hfd
      rw [heq, ← hfd]
      exact hhere
    · rw [Function.update_of_ne heq] at hfd
      exact hkeep fd heq file' (hsound.reaches fd file' hfd)
  · dsimp only at hfd
    by_cases heq : fd = r.1
    · rw [heq, Function.update_self, hopen] at hfd
      cases hfd
    · rw [Function.update_of_ne heq] at hfd
      exact hsound.empty fd hfd p ((hother fd heq).symm.trans hp)
  · by_contra hne
    obtain ⟨file', hfile⟩ := Option.ne_none_iff_exists'.mp hne
    obtain ⟨p, hp, hlive⟩ := Option.bind_eq_some_iff.mp (hsound.reaches _ _ hfile)
    rw [hold p hp, hfill.heap_zero] at hlive
    cases hlive
  · obtain ⟨p, hp, hne⟩ := hless fd hfd
    exact hne (hsound.empty fd hclosed p hp)

/-- INTERNAL: a call that only changes vnodes and volumes changes no descriptor. -/
theorem TableSound.congr (h : TableSound s) {t : FileTable H F δ}
    (hlist : t.descriptorList = s.table.descriptorList) (hheap : t.heap = s.table.heap) :
    TableSound { s with table := t } := by
  have hread : ∀ fd, descriptorAt t fd = descriptorAt s.table fd := fun fd => by
    rw [descriptorAt, hlist, hheap, descriptorAt]
  refine ⟨fun fd file hfd => (hread fd).trans (h.reaches fd file hfd), fun fd hfd p hp => ?_⟩
  dsimp only at hp
  rw [hlist] at hp
  exact h.empty fd hfd p hp

theorem vfsOpen_spec {t : FileTable H F δ} {res mode fd : ℕ} {path : CString}
    {t' : FileTable H F δ} (h : vfsOpen res path mode t = some (fd, t')) :
    ∃ file v, (fd, t') = newDescriptor res file { t with vfs := v } := by
  obtain ⟨vnode, -, h⟩ := Option.bind_eq_some_iff.mp h
  obtain ⟨node, -, h⟩ := Option.bind_eq_some_iff.mp h
  exact ⟨_, _, (Option.some.inj h).symm⟩

theorem vfsRead_spec {t t' : FileTable H F δ} {fd len : ℕ} {data : ℕ × List Byte}
    (h : vfsRead fd len t = some (data, t')) :
    t'.descriptorList = t.descriptorList ∧ t'.heap = t.heap := by
  obtain ⟨file, -, h⟩ := Option.bind_eq_some_iff.mp h
  obtain ⟨fRead, -, h⟩ := Option.bind_eq_some_iff.mp h
  obtain rfl := (Prod.mk.inj (Option.some.inj h)).2
  exact ⟨rfl, rfl⟩

theorem vfsWrite_spec {t t' : FileTable H F δ} {fd n : ℕ} {data : List Byte}
    (h : vfsWrite fd data t = some (n, t')) :
    t'.descriptorList = t.descriptorList ∧ t'.heap = t.heap := by
  obtain ⟨file, -, h⟩ := Option.bind_eq_some_iff.mp h
  obtain ⟨fWrite, -, h⟩ := Option.bind_eq_some_iff.mp h
  obtain rfl := (Prod.mk.inj (Option.some.inj h)).2
  exact ⟨rfl, rfl⟩

/-- INTERNAL: closing a descriptor frees its object and leaves the list. -/
theorem vfsClose_spec {t t' : FileTable H F δ} {fd : ℕ} (h : vfsClose fd t = some t') :
    t'.descriptorList = t.descriptorList ∧
      ∃ p, t.descriptorList[fd]? = some p ∧ t'.heap = Function.update t.heap p none := by
  obtain ⟨p, hp, h⟩ := Option.bind_eq_some_iff.mp h
  obtain ⟨file, -, h⟩ := Option.bind_eq_some_iff.mp h
  obtain rfl := Option.some.inj h
  exact ⟨rfl, p, hp, rfl⟩

theorem fdStep_of_none {c : FdCall H F δ} (h : c.run s.table = none) : fdStep c s = s := by
  rw [fdStep, h]

theorem fdStep_of_some {c : FdCall H F δ} {r : Option ℕ × FileTable H F δ}
    (h : c.run s.table = some r) : fdStep c s = c.record s r.1 r.2 := by
  rw [fdStep, h]

theorem TableFilled.congr (h : TableFilled s) {t : FileTable H F δ}
    (hlist : t.descriptorList = s.table.descriptorList)
    (hzero : t.heap 0 = none) (opened : ℕ → Option (FileDescriptor H F δ)) :
    TableFilled ⟨t, opened, s.returned⟩ := by
  refine ⟨hzero, fun fd hfd => ?_⟩
  dsimp only
  rw [hlist]
  exact h.filled fd hfd

theorem newDescriptor_filled (h : TableFilled s) {res : ℕ} (hpos : res ≠ 0)
    (hres : s.table.heap res = none) (file : FileDescriptor H F δ) (v : Vfs H F δ)
    (opened : ℕ → Option (FileDescriptor H F δ)) :
    let r := newDescriptor res file { s.table with vfs := v }
    TableFilled ⟨r.2, opened, r.1 :: s.returned⟩ := by
  intro r
  obtain ⟨hheap, -, hslot, -, -, hother, -⟩ :=
    newDescriptor_spec (s := { s.table with vfs := v }) hres file
  refine ⟨?_, fun fd hfd => ?_⟩
  · exact (congrFun hheap 0).trans
      ((Function.update_of_ne hpos.symm _ _).trans h.heap_zero)
  · by_cases heq : fd = r.1
    · exact ⟨res, heq ▸ hslot, hpos⟩
    · obtain ⟨p, hp, hne⟩ := h.filled fd ((List.mem_cons.mp hfd).resolve_left heq)
      exact ⟨p, (hother fd heq).trans hp, hne⟩

/-- The call allocates its `t_FileDescriptor` at the pointer. -/
def FdCall.OpensAt (res : ℕ) : FdCall H F δ → Prop
  | .openFile ptr _ _ | .addFile ptr _ => ptr = res
  | _ => False

theorem FdCall.OpensAt.fresh {c : FdCall H F δ} {res : ℕ} (h : c.OpensAt res)
    (hvalid : c.Valid s) : (res ≠ 0 ∧ s.table.heap res = none) ∧ KeepsOpen c s := by
  cases c with
  | openFile ptr path mode =>
      obtain rfl : ptr = res := h
      exact ⟨⟨hvalid.1, hvalid.2.1⟩, trivial⟩
  | addFile ptr file =>
      obtain rfl : ptr = res := h
      exact ⟨hvalid, trivial⟩
  | closeFile fd => exact absurd h id
  | readFile fd len => exact absurd h id
  | writeFile fd data => exact absurd h id

/-- INTERNAL: **what a call does that returns**: it adds a descriptor, closes one, or leaves
the list and the objects. -/
theorem fdStep_cases {c : FdCall H F δ} {r : Option ℕ × FileTable H F δ}
    (hrun : c.run s.table = some r) :
    (∃ res file v, c.OpensAt res ∧
      r = (some (newDescriptor res file { s.table with vfs := v }).1,
        (newDescriptor res file { s.table with vfs := v }).2) ∧
      fdStep c s = ⟨r.2, Function.update s.opened
        (newDescriptor res file { s.table with vfs := v }).1 (r.2.heap res),
        (newDescriptor res file { s.table with vfs := v }).1 :: s.returned⟩) ∨
    (∃ fd p, c = .closeFile fd ∧ s.table.descriptorList[fd]? = some p ∧ r.1 = none ∧
      r.2.descriptorList = s.table.descriptorList ∧
      r.2.heap = Function.update s.table.heap p none ∧
      fdStep c s = ⟨r.2, Function.update s.opened fd none, s.returned⟩) ∨
    (KeepsOpen c s ∧ r.1 = none ∧ r.2.descriptorList = s.table.descriptorList ∧
      r.2.heap = s.table.heap ∧ fdStep c s = { s with table := r.2 }) := by
  rw [fdStep_of_some hrun]
  cases c with
  | openFile res path mode =>
      obtain ⟨⟨fd, t⟩, hopen, rfl⟩ := Option.map_eq_some_iff.mp hrun
      obtain ⟨file, v, hnew⟩ := vfsOpen_spec hopen
      obtain ⟨rfl, rfl⟩ := Prod.mk.inj hnew
      exact .inl ⟨res, file, v, rfl, rfl, rfl⟩
  | addFile res file =>
      obtain rfl := Option.some.inj hrun
      exact .inl ⟨res, file, s.table.vfs, rfl, rfl, rfl⟩
  | closeFile fd =>
      obtain ⟨t, hclose, rfl⟩ := Option.map_eq_some_iff.mp hrun
      obtain ⟨hlist, p, hp, hheap⟩ := vfsClose_spec hclose
      exact .inr (.inl ⟨fd, p, rfl, hp, rfl, hlist, hheap, rfl⟩)
  | readFile fd len =>
      obtain ⟨⟨data, t⟩, hread, rfl⟩ := Option.map_eq_some_iff.mp hrun
      obtain ⟨hlist, hheap⟩ := vfsRead_spec hread
      exact .inr (.inr ⟨trivial, rfl, hlist, hheap, rfl⟩)
  | writeFile fd data =>
      obtain ⟨⟨n, t⟩, hwrite, rfl⟩ := Option.map_eq_some_iff.mp hrun
      obtain ⟨hlist, hheap⟩ := vfsWrite_spec hwrite
      exact .inr (.inr ⟨trivial, rfl, hlist, hheap, rfl⟩)

/-- INTERNAL: every valid call keeps the slots filled. -/
theorem tableFilled_step {c : FdCall H F δ} (h : TableFilled s) (hvalid : c.Valid s) :
    TableFilled (fdStep c s) := by
  cases hrun : c.run s.table with
  | none =>
      rw [fdStep_of_none hrun]
      exact h
  | some r =>
      obtain ⟨res, file, v, hopens, hr, hstep⟩ | ⟨fd, p, -, -, -, hlist, hheap, hstep⟩ |
        ⟨-, -, hlist, hheap, hstep⟩ := fdStep_cases hrun
      · obtain ⟨⟨hpos, hres⟩, -⟩ := hopens.fresh hvalid
        rw [hstep, hr]
        exact newDescriptor_filled h hpos hres file v _
      · rw [hstep]
        apply h.congr hlist
        rw [hheap, Function.update_apply]
        split
        next => rfl
        next => exact h.heap_zero
      · rw [hstep]
        exact h.congr hlist (hheap ▸ h.heap_zero) s.opened

/-- INTERNAL: a descriptor that was returned is open, so it can be closed. -/
theorem closeFile_runs (hfill : TableFilled s) (hsound : TableSound s) {fd : ℕ}
    (hfd : fd ∈ s.returned) : (FdCall.closeFile fd).run s.table ≠ none := by
  obtain ⟨p, hp, hpos⟩ := hfill.filled fd hfd
  have hopen : s.opened fd ≠ none := fun hclosed => hpos (hsound.empty fd hclosed p hp)
  obtain ⟨file, hfile⟩ := Option.ne_none_iff_exists'.mp hopen
  obtain ⟨p', hp', hlive⟩ := Option.bind_eq_some_iff.mp (hsound.reaches fd file hfile)
  simp [FdCall.run, vfsClose, hp', hlive]

/-- INTERNAL: a call keeps the table sound exactly when it closes nothing. -/
theorem tableSound_step {c : FdCall H F δ} (hfill : TableFilled s) (hvalid : c.Valid s)
    (hsound : TableSound s) : TableSound (fdStep c s) ↔ KeepsOpen c s := by
  cases hrun : c.run s.table with
  | none =>
      rw [fdStep_of_none hrun]
      apply iff_of_true hsound
      cases c with
      | closeFile fd => exact closeFile_runs hfill hsound hvalid hrun
      | _ => trivial
  | some r =>
      obtain ⟨res, file, v, hopens, hr, hstep⟩ | ⟨fd, p, rfl, hp, -, hlist, -, hstep⟩ |
        ⟨hkeeps, -, hlist, hheap, hstep⟩ := fdStep_cases hrun
      · obtain ⟨⟨-, hres⟩, hkeeps⟩ := hopens.fresh hvalid
        rw [hstep, hr]
        exact iff_of_true (newDescriptor_sound hfill hsound hres file v).1 hkeeps
      · rw [hstep]
        refine iff_of_false (fun hsound' => ?_) id
        obtain ⟨p', hp', hpos⟩ := hfill.filled fd hvalid
        exact hpos (hsound'.empty fd (Function.update_self _ _ _) p' (hlist ▸ hp'))
      · rw [hstep]
        exact iff_of_true (hsound.congr hlist hheap) hkeeps

/-- INTERNAL: while the table is sound, the descriptor returned is the least free one. -/
theorem returnsLeast {c : FdCall H F δ} (hfill : TableFilled s) (hvalid : c.Valid s)
    (hsound : TableSound s) : ReturnsLeast c s := by
  intro fd t hrun
  obtain ⟨res, file, v, hopens, hr, -⟩ | ⟨fd', p, -, -, hnone, -⟩ | ⟨-, hnone, -⟩ :=
    fdStep_cases hrun
  · obtain ⟨⟨-, hres⟩, -⟩ := hopens.fresh hvalid
    obtain rfl := Option.some.inj (Prod.mk.inj hr).1
    exact (newDescriptor_sound hfill hsound hres file v).2
  · cases hnone
  · cases hnone

end Step

/-! ## Runs -/

/-- No descriptor is open. -/
def noDescriptors (v : Vfs H F δ) : FdState H F δ :=
  ⟨⟨v, [], fun _ => none⟩, fun _ => none, []⟩

theorem noDescriptors_filled (v : Vfs H F δ) : TableFilled (noDescriptors v) :=
  ⟨rfl, fun _ hfd => absurd hfd List.not_mem_nil⟩

theorem noDescriptors_sound (v : Vfs H F δ) : TableSound (noDescriptors v) := by
  refine ⟨fun fd file hfd => ?_, fun fd _ p hp => ?_⟩
  · cases hfd
  · cases hp

/-- **The descriptor table.**  In a run of calls from an empty table, every open descriptor
reaches after every call the file that it was opened on, the slots of all others are empty
and every descriptor returned is the least one that is not open if and only if the run
closes no descriptor.
SRCLINE: vfs.c:234-294 -/
theorem descriptor_table_iff (v : Vfs H F δ) (calls : List (FdCall H F δ))
    (hvalid : EachCall fdStep FdCall.Valid calls (noDescriptors v)) :
    Throughout fdStep TableSound calls (noDescriptors v) ∧
      EachCall fdStep ReturnsLeast calls (noDescriptors v) ↔
    EachCall fdStep KeepsOpen calls (noDescriptors v) := by
  have hiff : Throughout fdStep TableSound calls (noDescriptors v) ↔
      EachCall fdStep KeepsOpen calls (noDescriptors v) :=
    throughout_iff_eachCall (fun _ _ h hc => tableFilled_step h hc)
      (fun _ _ h hc hsound => tableSound_step h hc hsound) (noDescriptors_filled v)
      (noDescriptors_sound v) hvalid
  constructor
  · rintro ⟨hsound, -⟩
    exact hiff.mp hsound
  · intro hopen
    have hsound := hiff.mpr hopen
    have hfill : Throughout fdStep TableFilled calls (noDescriptors v) :=
      throughout_of_invariant (fun _ _ h hc => tableFilled_step h hc) (noDescriptors_filled v) hvalid
    refine ⟨hsound, ?_⟩
    exact eachCall_of_throughout (fun _ _ h hc => returnsLeast h.1 hc h.2)
      (throughout_and.mpr ⟨hfill, hsound⟩) hvalid

/-- Two files are opened and read. -/
theorem descriptor_table_iff_kept :
    Throughout fdStep TableSound
      [.openFile 0x10 [slash, 0x41] 1, .openFile 0x20 [slash, 0x42] 1, .readFile 0 4]
      (noDescriptors namesRoot) :=
  ((descriptor_table_iff namesRoot
    [.openFile 0x10 [slash, 0x41] 1, .openFile 0x20 [slash, 0x42] 1, .readFile 0 4]
    ⟨⟨by decide, rfl, rfl⟩, ⟨by decide, rfl, rfl⟩, .tail _ (.head _), trivial⟩).mpr
    ⟨trivial, trivial, trivial, trivial⟩).1

/-- A file is closed and another one opened, whose descriptor `kmalloc` puts where the
first one was: the slot is not used again, and the closed descriptor reads the other
file. -/
theorem closed_descriptor_reads_other :
    ∃ calls : List (FdCall CString CString Unit),
      EachCall fdStep FdCall.Valid calls (noDescriptors namesRoot) ∧
      ¬ (Throughout fdStep TableSound calls (noDescriptors namesRoot) ∧
        EachCall fdStep ReturnsLeast calls (noDescriptors namesRoot)) ∧
      (after fdStep calls (noDescriptors namesRoot)).opened 0 = none ∧
      (vfsRead 0 1 (after fdStep calls (noDescriptors namesRoot)).table).map (·.1) =
        some (1, [0x42]) := by
  refine ⟨[.openFile 0x10 [slash, 0x41] 1, .closeFile 0, .openFile 0x10 [slash, 0x42] 1],
    ⟨⟨by decide, rfl, rfl⟩, .head _, ⟨by decide, rfl, rfl⟩, trivial⟩, ?_, rfl, rfl⟩
  rintro ⟨hsound, -⟩
  have hslot := hsound.2.2.1.empty 0 rfl 0x10 rfl
  exact absurd hslot (by decide)

end LakeOS.Analysis
