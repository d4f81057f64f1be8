import LakeOS.Model.VfsInit

/-!
# Which device the root is on

`VFS_init` goes round the devices that some driver mounts, and one `n` takes it from one to the
next; any other answer than `y` and `n` asks again.  So the first `y` takes the device at the number
of times that `n` came before it, modulo the number of devices that are mounted.
-/

set_option autoImplicit false

namespace LakeOS.Analysis

open LakeOS.Library LakeOS.Model

variable {C H : Type} {table : DriverTable} {dev : BootDevice C H} {devs : List (BootDevice C H)}
  {c c' : BootConsole} {name : CString} {asked rest input : List Byte} {root : DriverNode H}

/-! ## One question -/

/-- INTERNAL: with a `y` to come, the question ends with it or with the first `n`.
SRCLINE: vfs.c:113-126 -/
theorem vfsRereadInput_answers (name : CString) (rest : List Byte) (hyes : charY ∉ asked)
    (printed : List BootText) :
    ∃ texts,
      (asked.count charN = 0 ∧
        vfsRereadInput name (asked ++ charY :: rest) printed = some (true, ⟨rest, texts⟩)) ∨
      ∃ asked', charY ∉ asked' ∧ asked.count charN = asked'.count charN + 1 ∧
        vfsRereadInput name (asked ++ charY :: rest) printed =
          some (false, ⟨asked' ++ charY :: rest, texts⟩) := by
  induction asked generalizing printed with
  | nil =>
    refine ⟨printed ++ [.mountRoot name], .inl ⟨rfl, ?_⟩⟩
    rw [List.nil_append, vfsRereadInput, if_pos rfl]
  | cons ans asked ih =>
    obtain ⟨hans, hrest⟩ := not_or.mp (List.mem_cons.not.mp hyes)
    rw [List.cons_append, vfsRereadInput, if_neg (Ne.symm hans)]
    by_cases hno : ans = charN
    · subst hno
      refine ⟨printed ++ [.mountRoot name], .inr ⟨asked, hrest, List.count_cons_self, ?_⟩⟩
      rw [if_pos rfl]
    · rw [if_neg hno, List.count_cons_of_ne hno]
      exact ih hrest _

/-- INTERNAL: without a `y` to come, no device is taken. -/
theorem vfsRereadInput_refuses (hyes : charY ∉ input) (printed : List BootText) {yes : Bool}
    (h : vfsRereadInput name input printed = some (yes, c')) :
    yes = false ∧ charY ∉ c'.input := by
  induction input generalizing printed with
  | nil => exact absurd h (by simp [vfsRereadInput])
  | cons ans input ih =>
    obtain ⟨hans, hrest⟩ := not_or.mp (List.mem_cons.not.mp hyes)
    rw [vfsRereadInput, if_neg (Ne.symm hans)] at h
    by_cases hno : ans = charN
    · rw [if_pos hno] at h
      cases h
      exact ⟨rfl, hrest⟩
    · rw [if_neg hno] at h
      exact ih hrest _ h

/-! ## One pass over the devices -/

/-- What `vfs_root` would be on a device, if some driver mounts it. -/
def rootOn (table : DriverTable) (dev : BootDevice C H) : Option (DriverNode H) :=
  (vfsTryMount dev.code table).1.map fun ctx => vfsMountRoot dev.code table ctx table.vfsops

/-- The roots of the devices that are mounted, in their order. -/
def mountable (table : DriverTable) (devs : List (BootDevice C H)) : List (DriverNode H) :=
  devs.filterMap (rootOn table)

/-- INTERNAL: a device that no driver mounts is passed over. -/
theorem vfsInitLoop_unmounted (h : rootOn table dev = none) :
    vfsInitLoop table (dev :: devs) c = vfsInitLoop table devs c := by
  have hctx : (vfsTryMount dev.code table).1 = none := Option.map_eq_none_iff.mp h
  rw [vfsInitLoop, ← Prod.mk.eta (p := vfsTryMount dev.code table), hctx]

/-- INTERNAL: a device that is mounted is asked for. -/
theorem vfsInitLoop_mounted (h : rootOn table dev = some root) :
    vfsInitLoop table (dev :: devs) c =
      (vfsRereadInput dev.name c.input c.printed).bind fun answer =>
        if answer.1 then some (some root, answer.2) else vfsInitLoop table devs answer.2 := by
  obtain ⟨ctx, hctx, rfl⟩ := Option.map_eq_some_iff.mp h
  have hout : (vfsTryMount dev.code table).2 = some table.vfsops :=
    (vfsTryMountLoop_eq dev.code table table.numDrivers 0 none).2 (Option.isSome_of_eq_some hctx)
  rw [vfsInitLoop, ← Prod.mk.eta (p := vfsTryMount dev.code table), hctx, hout]

/-- INTERNAL: with a `y` to come, a pass takes a device, or refuses each of them once.
SRCLINE: vfs.c:108-128 -/
theorem vfsInitLoop_answers (table : DriverTable) (devs : List (BootDevice C H))
    (hinput : c.input = asked ++ charY :: rest) (hyes : charY ∉ asked) :
    ∃ c',
      (asked.count charN < (mountable table devs).length ∧ c'.input = rest ∧
        vfsInitLoop table devs c = some ((mountable table devs)[asked.count charN]?, c')) ∨
      ∃ asked', charY ∉ asked' ∧ c'.input = asked' ++ charY :: rest ∧
        asked.count charN = asked'.count charN + (mountable table devs).length ∧
        vfsInitLoop table devs c = some (none, c') := by
  induction devs generalizing c asked with
  | nil => exact ⟨c, .inr ⟨asked, hyes, hinput, rfl, rfl⟩⟩
  | cons dev devs ih =>
    cases hroot : rootOn table dev with
    | none =>
      have hsame : mountable table (dev :: devs) = mountable table devs :=
        List.filterMap_cons_none hroot
      rw [vfsInitLoop_unmounted hroot, hsame]
      exact ih hinput hyes
    | some root =>
      have hmore : mountable table (dev :: devs) = root :: mountable table devs :=
        List.filterMap_cons_some hroot
      rw [vfsInitLoop_mounted hroot, hmore, hinput, List.length_cons]
      obtain ⟨texts, ⟨hnone, hread⟩ | ⟨asked', hyes', hcount, hread⟩⟩ :=
        vfsRereadInput_answers dev.name rest hyes c.printed
      · refine ⟨⟨rest, texts⟩, .inl ⟨by omega, rfl, ?_⟩⟩
        rw [hread, hnone]
        rfl
      · rw [hread, hcount]
        obtain ⟨c', ⟨hlt, hrest, hrun⟩ | ⟨asked'', hyes'', hrest, hcount', hrun⟩⟩ :=
          ih (c := ⟨asked' ++ charY :: rest, texts⟩) rfl hyes'
        · exact ⟨c', .inl ⟨by omega, hrest, hrun⟩⟩
        · exact ⟨c', .inr ⟨asked'', hyes'', hrest, by omega, hrun⟩⟩

/-- INTERNAL: without a `y` to come, a pass takes no device. -/
theorem vfsInitLoop_refuses (devs : List (BootDevice C H)) (hyes : charY ∉ c.input)
    {found : Option (DriverNode H)} (h : vfsInitLoop table devs c = some (found, c')) :
    found = none ∧ charY ∉ c'.input := by
  induction devs generalizing c with
  | nil =>
    cases h
    exact ⟨rfl, hyes⟩
  | cons dev devs ih =>
    cases hroot : rootOn table dev with
    | none => exact ih hyes ((vfsInitLoop_unmounted hroot).symm.trans h)
    | some root =>
      rw [vfsInitLoop_mounted hroot] at h
      obtain ⟨⟨yes, c₁⟩, hread, hrest⟩ := Option.bind_eq_some_iff.mp h
      obtain ⟨rfl, hyes'⟩ := vfsRereadInput_refuses hyes c.printed hread
      exact ih hyes' hrest

/-! ## All passes -/

/-- INTERNAL: what is taken, if anything is.
SRCLINE: vfs.c:107-133 -/
theorem vfsInitRoot_takes {fuel : ℕ} (hinput : c.input = asked ++ charY :: rest)
    (hyes : charY ∉ asked) (h : vfsInitRoot table devs fuel c = some (root, c')) :
    c'.input = rest ∧ (mountable table devs)[asked.count charN %
      (mountable table devs).length]? = some root := by
  induction fuel generalizing c asked with
  | zero => exact absurd h (by simp [vfsInitRoot])
  | succ fuel ih =>
    rw [vfsInitRoot] at h
    obtain ⟨c₁, ⟨hlt, hrest, hrun⟩ | ⟨asked', hyes', hrest, hcount, hrun⟩⟩ :=
      vfsInitLoop_answers table devs hinput hyes
    · rw [hrun, Option.bind_some, List.getElem?_eq_getElem hlt] at h
      cases h
      rw [Nat.mod_eq_of_lt hlt, List.getElem?_eq_getElem hlt]
      exact ⟨hrest, rfl⟩
    · rw [hrun, Option.bind_some] at h
      rw [hcount, Nat.add_mod_right]
      exact ih (c := c₁.print .noBootDevice) hrest hyes' h

/-- INTERNAL: nothing is taken without a `y`. -/
theorem vfsInitRoot_refuses {fuel : ℕ} (hyes : charY ∉ c.input) :
    vfsInitRoot table devs fuel c = none := by
  induction fuel generalizing c with
  | zero => rfl
  | succ fuel ih =>
    rw [vfsInitRoot]
    cases hrun : vfsInitLoop table devs c with
    | none => rfl
    | some r =>
      obtain ⟨hfound, hyes'⟩ := vfsInitLoop_refuses devs hyes hrun
      rw [Option.bind_some, ← Prod.mk.eta (p := r), hfound]
      exact ih hyes'

/-- INTERNAL: what was asked before the first `y`. -/
theorem vfsInitRoot_asked {fuel : ℕ} (h : vfsInitRoot table devs fuel c = some (root, c')) :
    ∃ asked rest, c.input = asked ++ charY :: rest ∧ charY ∉ asked := by
  refine List.eq_append_cons_of_mem (by_contra fun hyes => ?_)
  rw [vfsInitRoot_refuses hyes] at h
  cases h

/-- INTERNAL: the root is on a device that is mounted. -/
theorem vfsInitRoot_mem {fuel : ℕ} (h : vfsInitRoot table devs fuel c = some (root, c')) :
    root ∈ mountable table devs := by
  obtain ⟨asked, rest, hinput, hyes⟩ := vfsInitRoot_asked h
  exact List.mem_of_getElem? (vfsInitRoot_takes hinput hyes h).2

/-- INTERNAL: with enough passes, a device is taken if one is mounted. -/
theorem vfsInitRoot_returns (hinput : c.input = asked ++ charY :: rest) (hyes : charY ∉ asked)
    (hpos : 0 < (mountable table devs).length) :
    ∃ fuel root c', vfsInitRoot table devs fuel c = some (root, c') := by
  induction hn : asked.count charN using Nat.strong_induction_on generalizing c asked with
  | _ n ih =>
    obtain ⟨c₁, ⟨hlt, -, hrun⟩ | ⟨asked', hyes', hrest, hcount, hrun⟩⟩ :=
      vfsInitLoop_answers table devs hinput hyes
    · refine ⟨1, (mountable table devs)[asked.count charN], c₁, ?_⟩
      rw [vfsInitRoot, hrun, Option.bind_some, List.getElem?_eq_getElem hlt]
    · obtain ⟨fuel, root, c', hfuel⟩ := ih (asked'.count charN) (by omega)
        (c := c₁.print .noBootDevice) hrest hyes' rfl
      refine ⟨fuel + 1, root, c', ?_⟩
      rw [vfsInitRoot, hrun, Option.bind_some]
      exact hfuel

/-- **The root is on the device that the first `y` falls on**, going round the devices that some
driver mounts with one `n` for each step; all other answers only ask again.  Without a `y`, or a
device that is mounted, `VFS_init` asks for ever.
SRCLINE: vfs.c:103-133 -/
theorem vfsInitRoot_iff (table : DriverTable) (devs : List (BootDevice C H)) (c : BootConsole)
    (root : DriverNode H) (rest : List Byte) :
    (∃ fuel c', vfsInitRoot table devs fuel c = some (root, c') ∧ c'.input = rest) ↔
      ∃ asked, c.input = asked ++ charY :: rest ∧ charY ∉ asked ∧
        (mountable table devs)[asked.count charN % (mountable table devs).length]? =
          some root := by
  constructor
  · rintro ⟨fuel, c', hrun, rfl⟩
    obtain ⟨asked, rest, hinput, hyes⟩ := vfsInitRoot_asked hrun
    obtain ⟨hrest, hroot⟩ := vfsInitRoot_takes hinput hyes hrun
    exact ⟨asked, by rw [hrest]; exact hinput, hyes, hroot⟩
  · rintro ⟨asked, hinput, hyes, hroot⟩
    have hpos : 0 < (mountable table devs).length :=
      (Nat.zero_le _).trans_lt (List.getElem?_eq_some_iff.mp hroot).1
    obtain ⟨fuel, root', c', hrun⟩ := vfsInitRoot_returns hinput hyes hpos
    obtain ⟨hrest, hroot'⟩ := vfsInitRoot_takes hinput hyes hrun
    cases Option.some.inj (hroot.symm.trans hroot')
    exact ⟨fuel, c', hrun, hrest⟩

end LakeOS.Analysis
