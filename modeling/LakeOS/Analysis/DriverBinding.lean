import LakeOS.Analysis.VectorGrowth
import LakeOS.Model.VfsDrivers

/-!
# The drivers of vnodes and descriptors

`VFS_try_mount` hands out the address of the first table, whichever driver returned the
context, and this address points into a vector that the next registration may move.  So a
vnode has the driver that mounted its file system exactly as long as only the first driver
mounts and the vector grows in place (`driver_binding_iff`).
-/

set_option autoImplicit false

namespace LakeOS.Analysis

open LakeOS.Library LakeOS.Model

variable {m m' : Memory} {fl live : List Extent} {e x : Extent} {inc p n q : ℕ} {C H : Type}

/-! ## The vector in the heap -/

/-- The block of the vector at `p` has room for `n` tables. -/
structure HoldsTables (m : Memory) (p n : ℕ) : Prop where
  start : heapStart + sizeofSizeT < p
  room : p + n * sizeofOperations ≤ (liveBlock m p).stop
  stop : (liveBlock m p).stop ≤ heapStart + heapSize

/-- INTERNAL: only the header matters. -/
theorem HoldsTables.congr (h : HoldsTables m p n)
    (hframe : ∀ z, p - sizeofSizeT ≤ z → z < p → m' z = m z) : HoldsTables m' p n := by
  have hblock : liveBlock m' p = liveBlock m p := by
    have hstart := h.start
    unfold liveBlock
    congr 1
    unfold sizeofSizeT at *
    exact Store.load_congr fun z hle hz => hframe z hle (by omega)
  refine ⟨h.start, ?_, ?_⟩
  · rw [hblock]
    exact h.room
  · rw [hblock]
    exact h.stop

/-- INTERNAL: a block of a well-formed heap. -/
theorem HeapRep.holdsTables (h : HeapRep m fl (e :: live))
    (hroom : n * sizeofOperations + sizeofSizeT ≤ e.len) :
    HoldsTables m (e.start + sizeofSizeT) n := by
  have hb := h.bounds
  have hblock := liveBlock_eq h (List.mem_cons_self (a := e) (l := live))
  refine ⟨by omega, ?_, ?_⟩
  · rw [hblock]
    unfold Extent.stop
    omega
  · rw [hblock]
    exact hb.2.1

/-- The first free block of `n` bytes can be handed out. -/
def FirstServes (fl : List Extent) (n : ℕ) : Prop :=
  ∃ b, firstFit fl n = some b ∧ (b.start = heapStart → n + sizeofFreeBlock ≤ b.len)

/-- INTERNAL: a new block.
SRCLINE: kmm.c:14-18 -/
theorem kmalloc_serves (h : HeapRep m fl live) (hserves : FirstServes fl (n + sizeofSizeT))
    (hn : sizeofFreeBlock ≤ n + sizeofSizeT) :
    ∃ e m' fl', kmalloc m n = some (e.start + sizeofSizeT, m') ∧ e.len = n + sizeofSizeT ∧
      HeapRep m' fl' (e :: live) := by
  obtain ⟨b, hfirst, hhead⟩ := hserves
  obtain ⟨hb, hfit⟩ := mem_of_firstFit hfirst
  have hblt := h.free.stop_lt hb
  have hbin := h.free.inside b hb
  have hlt : n + sizeofSizeT + sizeofFreeBlock < 2 ^ 32 := by
    unfold Extent.stop heapStart heapSize sizeofFreeBlock at *
    omega
  have hbytes : allocBytes n = n + sizeofSizeT := by
    rw [allocBytes_eq (by omega)]
    unfold sizeofFreeBlock at *
    omega
  obtain ⟨m', fl', e, hrun, htaken, hlist, hheader, hframe⟩ := kmalloc_found h.free
    (by rw [hbytes]; exact hlt) (by rw [hbytes]; exact Nat.le_add_left _ _)
    (by rw [hbytes]; exact hfirst) (fun hwhole hstart => by
      have := hhead hstart
      rw [WholeFit, hbytes] at hwhole
      omega)
  refine ⟨e, m', fl', hrun, htaken.len_eq.trans hbytes, ?_⟩
  exact h.kmalloc htaken hlist hheader (by rw [hbytes]; exact hn) hframe

/-- INTERNAL: **with room behind it** an allocation grows in place and keeps its bytes,
whatever else is overwritten.
SRCLINE: kmm.c:26-44, 54-58 -/
theorem kexpand_in_place (h : HeapRep m fl (e :: live)) (hinc : 0 < inc)
    (hx : neighbor fl e (e.len + inc) = some x) (hinheap : NodeInHeap e x (e.len + inc)) :
    ∃ m', kexpand m (e.start + sizeofSizeT) inc = some (e.start + sizeofSizeT, m') ∧
      e.len + inc ≤ blockSize m' e.start ∧
      e.start + blockSize m' e.start ≤ heapStart + heapSize ∧
      ∀ i, i + sizeofSizeT < e.len →
        m' (e.start + sizeofSizeT + i) = m (e.start + sizeofSizeT + i) := by
  obtain ⟨hmem, hstart, hfit⟩ := neighbor_some hx
  have hxin := h.free.inside x hmem
  have hlen := h.len_add_lt hmem hstart
  have hb := h.bounds
  have hheader := h.growInto_header hmem hstart (Nat.lt_add_of_pos_right hinc) hfit
  refine ⟨growInto m (e.start + sizeofSizeT) e.len (e.len + inc) x.start, ?_, ?_, ?_, ?_⟩
  · rw [h.kexpand_eq (by unfold heapSize at hlen; omega),
      h.krealloc_eq (by unfold heapSize at hlen; omega), if_neg (by omega), hx]
    exact if_pos hinheap
  · rw [hheader]
    split
    · exact le_rfl
    · exact hfit
  · rw [hheader]
    unfold Extent.stop at *
    split
    · omega
    · omega
  · intro i hi
    by_cases hnode : inc + sizeofFreeBlock ≤ x.len
    · obtain ⟨as, p, bs, hleft⟩ := nodeLeft_of_neighbor h hinc hx hnode
      exact hleft.grown_contents i hi
    · obtain ⟨fl', -, hframe⟩ := growWhole_spec h hmem hstart (Nat.lt_add_of_pos_right hinc) hfit
        (by omega)
      have hold : e.start + sizeofSizeT + i ∈ e := by
        rw [Extent.mem_def]
        unfold Extent.stop
        omega
      exact hframe _ (h.notMem_free List.mem_cons_self hold) (by omega)

/-- INTERNAL: **without room** the allocation moves to another place, if it is not the last
one of the heap.
SRCLINE: kmm.c:47-58 -/
theorem kexpand_moves (h : HeapRep m fl (e :: live)) (hinc : 0 < inc)
    (hnone : neighbor fl e (e.len + inc) = none) (hnotlast : NotLast e)
    (hserves : FirstServes fl (e.len + inc + sizeofSizeT)) :
    ∃ e' m' fl', kexpand m (e.start + sizeofSizeT) inc = some (e'.start + sizeofSizeT, m') ∧
      e'.start ≠ e.start ∧ e'.len = e.len + inc + sizeofSizeT ∧ HeapRep m' fl' (e' :: live) := by
  have hb := h.bounds
  have hwide : sizeofFreeBlock ≤ e.len + inc + sizeofSizeT := by omega
  obtain ⟨e', m₁, fl₁, hrun, -, hrep⟩ := kmalloc_serves h hserves hwide
  obtain ⟨b, hfirst, hhead⟩ := hserves
  obtain ⟨hbmem, hfit⟩ := mem_of_firstFit hfirst
  have hbin := h.free.inside b hbmem
  obtain ⟨m₂, fl', e₂, hrun₂, hlen, hend, hrep₂, -, -⟩ :=
    move_spec h (Nat.lt_add_of_pos_right hinc) hfirst hhead
  have hstart : e₂.start = e'.start := by
    have hboth := hrun₂.symm.trans hrun
    rw [Option.some_inj, Prod.mk.injEq] at hboth
    exact Nat.add_right_cancel hboth.1
  have hne : e'.start ≠ e.start := by
    have hap := hrep.apart_others e List.mem_cons_self
    have hwide' := hrep.wide e' List.mem_cons_self
    unfold Extent.Apart Extent.stop sizeofFreeBlock at *
    omega
  refine ⟨e₂, _, fl', ?_, hstart.trans_ne hne, hlen, hrep₂⟩
  have hlt : e.len + inc < 2 ^ 32 := by
    unfold Extent.stop heapStart heapSize at *
    omega
  rw [h.kexpand_eq hlt, h.krealloc_eq hlt, if_neg (by omega), hnone, hrun₂]
  exact if_pos ⟨hnotlast, hend⟩

/-! ## Registrations -/

/-- The vector is allocated as soon as there is a driver. -/
def VectorOk (d : DriverTable) : Prop :=
  d.vfsops = 0 ∧ d.numDrivers = 0 ∨ HoldsTables d.memory d.vfsops d.numDrivers

/-- The block behind the vector is free and holds another table. -/
def RoomBehind (d : DriverTable) : Prop :=
  ∀ fl, freeList d.memory = some fl →
    ∃ x ∈ fl, x.start = (liveBlock d.memory d.vfsops).stop ∧ sizeofOperations ≤ x.len

/-- The heap is well-formed and has memory for another table, which `kexpand` comes to: for
the first one; behind the vector, where a node that is left moves inside the heap; or for a
vector that moves and is not the last block of the heap. -/
def HeapServes (d : DriverTable) : Prop :=
  ∃ fl live,
    if d.vfsops = 0 then
      HeapRep d.memory fl live ∧ FirstServes fl (sizeofOperations + sizeofSizeT)
    else
      HeapRep d.memory fl (liveBlock d.memory d.vfsops :: live) ∧
        (∀ x, neighbor fl (liveBlock d.memory d.vfsops)
            ((liveBlock d.memory d.vfsops).len + sizeofOperations) = some x →
          NodeInHeap (liveBlock d.memory d.vfsops) x
            ((liveBlock d.memory d.vfsops).len + sizeofOperations)) ∧
        (RoomBehind d ∨ NotLast (liveBlock d.memory d.vfsops) ∧
          FirstServes fl ((liveBlock d.memory d.vfsops).len + sizeofOperations + sizeofSizeT))

theorem roomBehind_iff {d : DriverTable} (h : FreeListAt d.memory fl) :
    RoomBehind d ↔ ∃ x, neighbor fl (liveBlock d.memory d.vfsops)
      ((liveBlock d.memory d.vfsops).len + sizeofOperations) = some x := by
  have hfl := h.freeList_eq
  unfold RoomBehind neighbor
  rw [hfl]
  constructor
  · intro hroom
    obtain ⟨x, hx, hstart, hlen⟩ := hroom fl rfl
    apply Option.isSome_iff_exists.mp
    apply List.find?_isSome.mpr
    exact ⟨x, hx, by simp [hstart, hlen]⟩
  · rintro ⟨x, hx⟩ fl' hfl'
    obtain rfl := Option.some.inj hfl'
    have hmem := List.mem_of_find?_eq_some hx
    have hfound := List.find?_some hx
    simp only [decide_eq_true_eq] at hfound
    exact ⟨x, hmem, hfound.1, by omega⟩

/-- INTERNAL: a table in a vector that is allocated has an address. -/
theorem operationsAt_eq {d : DriverTable} (h : HoldsTables d.memory d.vfsops n) {i : ℕ}
    (hi : i ≤ n) : operationsAt d i = d.vfsops + i * sizeofOperations := by
  have hroom := h.room
  have hstop := h.stop
  unfold operationsAt
  unfold heapStart heapSize sizeofOperations at *
  rw [mul32_eq (by omega), add32_eq (by omega)]

/-- INTERNAL: **what `kexpand` does to the vector**.
SRCLINE: vfs.c:23 -/
theorem kexpand_vector {d : DriverTable} (hok : VectorOk d) (hserves : HeapServes d) :
    ∃ q m', kexpand d.memory d.vfsops sizeofOperations = some (q, m') ∧
      HoldsTables m' q (d.numDrivers + 1) ∧
      (d.vfsops ≠ 0 → (q = d.vfsops ↔ RoomBehind d) ∧
        (RoomBehind d → ∀ i, i < d.numDrivers * sizeofOperations →
          m' (d.vfsops + i) = d.memory (d.vfsops + i))) := by
  obtain ⟨fl, live, hheap⟩ := hserves
  obtain ⟨hnull, hnum⟩ | hholds := hok
  · rw [if_pos hnull] at hheap
    obtain ⟨e, m', fl', hrun, hlen, hrep⟩ := kmalloc_serves hheap.1 hheap.2 (by decide)
    refine ⟨_, m', ?_, hrep.holdsTables (by rw [hnum, hlen]; decide), fun hne => absurd hnull hne⟩
    rw [hnull]
    exact hrun
  · have hstart := hholds.start
    have hroom := hholds.room
    rw [if_neg (by omega)] at hheap
    obtain ⟨hrep, hinheap, hcase⟩ := hheap
    have hbehind := roomBehind_iff (d := d) hrep.free
    have hptr : d.vfsops = (liveBlock d.memory d.vfsops).start + sizeofSizeT := by
      unfold liveBlock
      simp only
      omega
    generalize liveBlock d.memory d.vfsops = e at *
    unfold Extent.stop at hroom
    have hpos : 0 < sizeofOperations := by decide
    cases hx : neighbor fl e (e.len + sizeofOperations) with
    | some x =>
        obtain ⟨m', hrun, hsize, hstop, hkept⟩ := kexpand_in_place hrep hpos hx (hinheap x hx)
        have hyes : RoomBehind d := hbehind.mpr ⟨x, hx⟩
        have hblock : liveBlock m' (e.start + sizeofSizeT) = ⟨e.start, blockSize m' e.start⟩ := by
          unfold liveBlock
          rw [Nat.add_sub_cancel]
        rw [hptr]
        refine ⟨_, m', hrun, ⟨by omega, ?_, ?_⟩, fun _ => ⟨⟨fun _ => hyes, fun _ => rfl⟩, ?_⟩⟩
        · rw [hblock, Nat.succ_mul]
          unfold Extent.stop
          simp only
          omega
        · rw [hblock]
          exact hstop
        · exact fun _ i hi => hkept i (by omega)
    | none =>
        have hno : ¬ RoomBehind d := fun hyes => by
          obtain ⟨x, hsome⟩ := hbehind.mp hyes
          rw [hx] at hsome
          exact absurd hsome (by simp)
        obtain ⟨hnotlast, hserves⟩ := hcase.resolve_left hno
        obtain ⟨e', m', fl', hrun, hne, hlen, hrep'⟩ :=
          kexpand_moves hrep hpos hx hnotlast hserves
        rw [hptr]
        have hroom' : (d.numDrivers + 1) * sizeofOperations + sizeofSizeT ≤ e'.len := by
          rw [Nat.succ_mul]
          omega
        refine ⟨_, m', hrun, hrep'.holdsTables hroom', fun _ => ⟨?_, fun hyes => absurd hyes hno⟩⟩
        refine iff_of_false (fun heq => ?_) hno
        exact hne (Nat.add_right_cancel heq)

/-- INTERNAL: **a registration**.
SRCLINE: vfs.c:22-25 -/
theorem vfsRegisterFs_spec {d : DriverTable} (driver : List Byte) (hok : VectorOk d)
    (hserves : HeapServes d) :
    ∃ d', vfsRegisterFs driver d = some d' ∧ d'.numDrivers = d.numDrivers + 1 ∧
      HoldsTables d'.memory d'.vfsops d'.numDrivers ∧
      (d.vfsops ≠ 0 → (d'.vfsops = d.vfsops ↔ RoomBehind d) ∧
        (RoomBehind d → ∀ i, i < d.numDrivers * sizeofOperations →
          d'.memory (d.vfsops + i) = d.memory (d.vfsops + i))) := by
  obtain ⟨q, m', hrun, hholds, hmoved⟩ := kexpand_vector hok hserves
  have hroom := hholds.room
  have hstop := hholds.stop
  have hsucc : add32 d.numDrivers 1 = d.numDrivers + 1 := by
    apply add32_eq
    unfold heapStart heapSize sizeofOperations at *
    omega
  have haddr : operationsAt ⟨m', q, d.numDrivers⟩ d.numDrivers =
      q + d.numDrivers * sizeofOperations :=
    operationsAt_eq (d := ⟨m', q, d.numDrivers⟩) hholds (Nat.le_succ _)
  refine ⟨⟨m'.write (q + d.numDrivers * sizeofOperations) driver, q, d.numDrivers + 1⟩, ?_, rfl,
    ?_, fun hne => ⟨(hmoved hne).1, fun hyes i hi => ?_⟩⟩
  · unfold vfsRegisterFs
    rw [hrun]
    simp only [Option.map_some, haddr, hsucc]
  · refine hholds.congr fun z _ hz => ?_
    exact Store.write_of_lt m' driver (by omega)
  · have hsame := (hmoved hne).1.mpr hyes
    simp only
    rw [Store.write_of_lt m' driver (by omega)]
    exact (hmoved hne).2 hyes i hi

/-! ## Runs -/

/-- A vnode or a descriptor, with the table whose `f_Mount` returned the context that its
handle comes from: its index, and its bytes at that time. -/
structure BoundNode (H : Type) extends DriverNode H where
  source : ℕ
  table : List Byte

/-- The drivers, and all vnodes and descriptors, the last one first. -/
structure VfsState (H : Type) where
  drivers : DriverTable
  nodes : List (BoundNode H)

/-- A call, or a change of memory by the rest of the kernel and the drivers. -/
inductive VfsCall (C H : Type) where
  | register (driver : List Byte)
  | mount (code : DriverCode C H)
  | create (parent : ℕ) (handle : H)
  | elsewhere (memory : Memory)

/-- The index of the driver that returns a context. -/
def mountedBy (code : DriverCode C H) (d : DriverTable) : Option ℕ :=
  (List.range d.numDrivers).find? fun i => (mountAt code d i).isSome

/-- What a call does. -/
def VfsCall.step (call : VfsCall C H) (s : VfsState H) : VfsState H :=
  match call with
  | .register driver => { s with drivers := (vfsRegisterFs driver s.drivers).getD s.drivers }
  | .mount code =>
      match mountedBy code s.drivers, vfsTryMount code s.drivers with
      | some i, (some fs, some fsops) =>
          { s with nodes := ⟨vfsMountRoot code s.drivers fs fsops, i,
              s.drivers.memory.read (operationsAt s.drivers i) sizeofOperations⟩ :: s.nodes }
      | _, _ => s
  | .create parent handle =>
      match s.nodes[parent]? with
      | some node =>
          { s with nodes := ⟨node.toDriverNode.inherit handle, node.source, node.table⟩ :: s.nodes }
      | none => s
  | .elsewhere memory => { s with drivers := { s.drivers with memory := memory } }

/-- Every vnode and descriptor has a pointer to the table of its driver, where that is now. -/
def DriversBound (s : VfsState H) : Prop :=
  ∀ node ∈ s.nodes, node.driver = operationsAt s.drivers node.source ∧
    s.drivers.memory.read node.driver sizeofOperations = node.table

/-- A registration finds a heap that serves it, and the rest of the kernel leaves the
block of the vector alone. -/
def CallServed (call : VfsCall C H) (s : VfsState H) : Prop :=
  match call with
  | .register driver => driver.length = sizeofOperations ∧ HeapServes s.drivers
  | .elsewhere memory => s.drivers.vfsops ≠ 0 →
      ∀ z ∈ liveBlock s.drivers.memory s.drivers.vfsops, memory z = s.drivers.memory z
  | _ => True

/-- A device that some driver mounts is mounted by the first one, and a registration after
a mount finds room behind the vector. -/
def CallKeepsBinding (call : VfsCall C H) (s : VfsState H) : Prop :=
  match call with
  | .register _ => s.nodes ≠ [] → RoomBehind s.drivers
  | .mount code => (∃ i < s.drivers.numDrivers, (mountAt code s.drivers i).isSome) →
      (mountAt code s.drivers 0).isSome
  | _ => True

/-- INTERNAL: what every run keeps. -/
structure VfsStateOk (s : VfsState H) : Prop where
  vector : VectorOk s.drivers
  source : ∀ node ∈ s.nodes, node.source < s.drivers.numDrivers

variable {s : VfsState H}

/-- INTERNAL: once there is a driver the vector is allocated. -/
theorem VfsStateOk.holds (h : VfsStateOk s) {i : ℕ} (hi : i < s.drivers.numDrivers) :
    HoldsTables s.drivers.memory s.drivers.vfsops s.drivers.numDrivers := by
  obtain ⟨-, hnum⟩ | hholds := h.vector
  · omega
  · exact hholds

/-- INTERNAL: the table of a node is read from the bytes of the vector. -/
theorem VfsStateOk.read_table (h : VfsStateOk s) (hbound : DriversBound s) {memory : Memory}
    (hsame : ∀ i < s.drivers.numDrivers * sizeofOperations,
      memory (s.drivers.vfsops + i) = s.drivers.memory (s.drivers.vfsops + i))
    {node : BoundNode H} (hnode : node ∈ s.nodes) :
    memory.read node.driver sizeofOperations = node.table := by
  have hlt := h.source node hnode
  obtain ⟨hdriver, htable⟩ := hbound node hnode
  rw [operationsAt_eq (h.holds hlt) hlt.le] at hdriver
  have hindex : (node.source + 1) * sizeofOperations ≤
      s.drivers.numDrivers * sizeofOperations := Nat.mul_le_mul_right _ hlt
  rw [Nat.succ_mul] at hindex
  rw [← htable]
  apply Store.read_congr
  intro z hz hzlt
  have hbyte := hsame (z - s.drivers.vfsops) (by omega)
  rwa [Nat.add_sub_cancel' (by omega)] at hbyte

/-- INTERNAL: `VFS_try_mount` and the index of the driver that mounts.
SRCLINE: vfs.c:27-35 -/
theorem mountedBy_some {code : DriverCode C H} {d : DriverTable} {i : ℕ}
    (hi : mountedBy code d = some i) : i < d.numDrivers ∧ (mountAt code d i).isSome ∧
      (∀ j < i, ¬ (mountAt code d j).isSome) ∧
      ∃ fs, mountAt code d i = some fs ∧ vfsTryMount code d = (some fs, some d.vfsops) := by
  have hfound := hi
  unfold mountedBy at hfound
  rw [List.find?_range_eq_some] at hfound
  obtain ⟨hsome, hlt, hbefore⟩ := hfound
  rw [List.mem_range] at hlt
  obtain ⟨fs, hfs⟩ := Option.isSome_iff_exists.mp hsome
  refine ⟨hlt, hsome, fun j hj hjs => by simpa [hjs] using hbefore j hj, fs, hfs, ?_⟩
  obtain ⟨hctx, hout⟩ := vfsTryMountLoop_eq code d d.numDrivers 0 none
  unfold mountedBy at hi
  rw [← List.range_eq_range', hi, Option.bind_some, hfs] at hctx
  have hboth := hout (by rw [hctx]; rfl)
  unfold vfsTryMount
  exact Prod.ext hctx hboth

/-- INTERNAL: a registration keeps the vector.
SRCLINE: vfs.c:22-25 -/
theorem register_ok {driver : List Byte} (h : VfsStateOk s)
    (hserved : CallServed (C := C) (.register driver) s) :
    VfsStateOk (VfsCall.step (C := C) (.register driver) s) ∧
      (DriversBound s → (DriversBound (VfsCall.step (C := C) (.register driver) s) ↔
        (s.nodes ≠ [] → RoomBehind s.drivers))) := by
  obtain ⟨d', hrun, hnum, hholds', hmoved⟩ := vfsRegisterFs_spec driver h.vector hserved.2
  have hstep : VfsCall.step (C := C) (.register driver) s = { s with drivers := d' } := by
    simp only [VfsCall.step, hrun, Option.getD_some]
  rw [hstep]
  refine ⟨⟨.inr hholds', fun node hnode => ?_⟩, fun hbound => ?_⟩
  · have hlt := h.source node hnode
    simp only
    omega
  · constructor
    · intro hafter hne
      obtain ⟨node, hnode⟩ := List.exists_mem_of_ne_nil _ hne
      have hlt := h.source node hnode
      have hholds := h.holds hlt
      have hstart := hholds.start
      have hold := (hbound node hnode).1
      have hnew := (hafter node hnode).1
      rw [operationsAt_eq hholds hlt.le] at hold
      rw [operationsAt_eq hholds' (by omega)] at hnew
      exact (hmoved (by omega)).1.mp (by omega)
    · intro hroom node hnode
      have hlt := h.source node hnode
      have hholds := h.holds hlt
      have hstart := hholds.start
      have hbehind := hroom (List.ne_nil_of_mem hnode)
      obtain ⟨hsame, hkept⟩ := hmoved (by omega)
      refine ⟨?_, h.read_table hbound (hkept hbehind) hnode⟩
      have hdriver := (hbound node hnode).1
      rw [operationsAt_eq hholds hlt.le] at hdriver
      rw [operationsAt_eq hholds' (by omega), hdriver, hsame.mpr hbehind]

/-- INTERNAL: a mount.
SRCLINE: vfs.c:27-43 -/
theorem mount_ok {code : DriverCode C H} (h : VfsStateOk s) :
    VfsStateOk (VfsCall.step (.mount code) s) ∧
      (DriversBound s → (DriversBound (VfsCall.step (.mount code) s) ↔
        CallKeepsBinding (.mount code) s)) := by
  cases hi : mountedBy code s.drivers with
  | none =>
      have hstep : VfsCall.step (.mount code) s = s := by
        simp only [VfsCall.step, hi]
      rw [hstep]
      refine ⟨h, fun hbound => iff_of_true hbound ?_⟩
      rintro ⟨i, hlt, hsome⟩
      have hnone := List.find?_eq_none.mp hi i (List.mem_range.mpr hlt)
      exact absurd hsome hnone
  | some i =>
      obtain ⟨hlt, hsome, hbefore, fs, -, hrun⟩ := mountedBy_some hi
      have haddr := operationsAt_eq (h.holds hlt) hlt.le
      have hstep : VfsCall.step (.mount code) s = { s with
          nodes := ⟨vfsMountRoot code s.drivers fs s.drivers.vfsops, i,
            s.drivers.memory.read (operationsAt s.drivers i) sizeofOperations⟩ :: s.nodes } := by
        simp only [VfsCall.step, hi, hrun]
      rw [hstep]
      refine ⟨⟨h.vector, List.forall_mem_cons.mpr ⟨hlt, h.source⟩⟩, fun hbound => ?_⟩
      constructor
      · intro hafter _
        have hdriver : s.drivers.vfsops = operationsAt s.drivers i :=
          (hafter _ List.mem_cons_self).1
        have hzero : i = 0 := by
          rw [haddr] at hdriver
          unfold sizeofOperations at hdriver
          omega
        exact hzero ▸ hsome
      · intro hfirst
        have hzero : i = 0 := by
          by_contra hne
          exact hbefore 0 (by omega) (hfirst ⟨i, hlt, hsome⟩)
        have hdriver : s.drivers.vfsops = operationsAt s.drivers i := by
          rw [haddr, hzero, Nat.zero_mul, Nat.add_zero]
        refine List.forall_mem_cons.mpr ⟨⟨hdriver, ?_⟩, hbound⟩
        rw [← hdriver]
        rfl

/-- INTERNAL: a new vnode or descriptor.
SRCLINE: vfs.c:163-174, 261-274 -/
theorem create_ok (parent : ℕ) (handle : H) (h : VfsStateOk s) :
    VfsStateOk (VfsCall.step (C := C) (.create parent handle) s) ∧
      (DriversBound s → DriversBound (VfsCall.step (C := C) (.create parent handle) s)) := by
  simp only [VfsCall.step]
  cases hnode : s.nodes[parent]? with
  | none => exact ⟨h, fun hbound => hbound⟩
  | some node =>
      have hmem := List.mem_of_getElem? hnode
      refine ⟨⟨h.vector, List.forall_mem_cons.mpr ⟨h.source node hmem, h.source⟩⟩, ?_⟩
      exact fun hbound => List.forall_mem_cons.mpr ⟨hbound node hmem, hbound⟩

/-- INTERNAL: the block of the vector is left alone. -/
theorem elsewhere_ok {memory : Memory} (h : VfsStateOk s)
    (hserved : CallServed (C := C) (.elsewhere memory) s) :
    VfsStateOk (VfsCall.step (C := C) (.elsewhere memory) s) ∧
      (DriversBound s → DriversBound (VfsCall.step (C := C) (.elsewhere memory) s)) := by
  have hframe : ∀ {n}, HoldsTables s.drivers.memory s.drivers.vfsops n →
      ∀ z, s.drivers.vfsops - sizeofSizeT ≤ z → z < s.drivers.vfsops + n * sizeofOperations →
        memory z = s.drivers.memory z := by
    intro n hholds z hz hzlt
    have hstart := hholds.start
    have hroom := hholds.room
    apply hserved (by omega)
    rw [Extent.mem_def]
    exact ⟨hz, by omega⟩
  refine ⟨⟨?_, h.source⟩, fun hbound node hnode => ?_⟩
  · obtain hnull | hholds := h.vector
    · exact .inl hnull
    · exact .inr (hholds.congr fun z hz hzlt => hframe hholds z hz (by omega))
  · have hholds := h.holds (h.source node hnode)
    refine ⟨(hbound node hnode).1, h.read_table hbound (fun i hi => ?_) hnode⟩
    exact hframe hholds _ (by omega) (by omega)

/-- INTERNAL: one call. -/
theorem step_ok (call : VfsCall C H) (s : VfsState H) (h : VfsStateOk s)
    (hserved : CallServed call s) :
    VfsStateOk (call.step s) ∧
      (DriversBound s → (DriversBound (call.step s) ↔ CallKeepsBinding call s)) := by
  cases call with
  | register driver => exact register_ok h hserved
  | mount code => exact mount_ok h
  | create parent handle =>
      obtain ⟨hok, hkeeps⟩ := create_ok (C := C) parent handle h
      exact ⟨hok, fun hbound => iff_of_true (hkeeps hbound) trivial⟩
  | elsewhere memory =>
      obtain ⟨hok, hkeeps⟩ := elsewhere_ok h hserved
      exact ⟨hok, fun hbound => iff_of_true (hkeeps hbound) trivial⟩

/-- No driver is registered yet. -/
def bootDrivers (m : Memory) : VfsState H := ⟨⟨m, 0, 0⟩, []⟩

/-- **Vnodes keep the driver that mounted them** exactly as long as no other driver than the
first one mounts and no registration after a mount moves the vector.
SRCLINE: vfs.c:22-43 -/
theorem driver_binding_iff (m : Memory) (calls : List (VfsCall C H))
    (hserved : EachCall VfsCall.step CallServed calls (bootDrivers m)) :
    Throughout VfsCall.step DriversBound calls (bootDrivers m) ↔
      EachCall VfsCall.step CallKeepsBinding calls (bootDrivers m) := by
  have hboot : VfsStateOk (bootDrivers m : VfsState H) :=
    ⟨.inl ⟨rfl, rfl⟩, fun _ hnode => absurd hnode List.not_mem_nil⟩
  refine throughout_iff_eachCall ?_ ?_ hboot (fun _ hnode => absurd hnode List.not_mem_nil) hserved
  · exact fun call s hs hcall => (step_ok call s hs hcall).1
  · exact fun call s hs hcall hbound => (step_ok call s hs hcall).2 hbound

/-- A driver whose table is filled with the byte `b`. -/
def filledTable (b : Byte) : List Byte := List.replicate sizeofOperations b

/-- Drivers of which the one with `f_Mount` at the address `f` mounts the device. -/
def mountsAt (f : ℕ) : DriverCode Unit Unit where
  fMount g := if g = f then some () else none
  fRoot _ _ := ()

/-- One driver, which mounts, and a vnode below the root. -/
def oneDriver : List (VfsCall Unit Unit) :=
  [.register (filledTable 1), .mount (mountsAt 0x01010101), .create 0 ()]

theorem driver_binding_iff_one :
    EachCall VfsCall.step CallServed oneDriver (bootDrivers zeroHeap) ∧
      (Throughout VfsCall.step DriversBound oneDriver (bootDrivers zeroHeap) ↔
        EachCall VfsCall.step CallKeepsBinding oneDriver (bootDrivers zeroHeap)) := by
  have hserves : HeapServes (bootDrivers (H := Unit) zeroHeap).drivers := by
    refine ⟨[⟨heapStart, heapSize⟩], [], ?_⟩
    rw [if_pos (show (bootDrivers (H := Unit) zeroHeap).drivers.vfsops = 0 from rfl)]
    exact ⟨HeapRep.init _, ⟨heapStart, heapSize⟩, by decide, fun _ => by decide⟩
  have hserved : EachCall VfsCall.step CallServed oneDriver (bootDrivers zeroHeap) :=
    ⟨⟨rfl, hserves⟩, trivial, trivial, trivial⟩
  exact ⟨hserved, driver_binding_iff zeroHeap oneDriver hserved⟩

/-- Two drivers, the second of which mounts. -/
def twoDrivers : List (VfsCall Unit Unit) :=
  [.register (filledTable 1), .register (filledTable 2), .mount (mountsAt 0x02020202)]

/-- The first of them is registered, behind an allocation of 8 bytes. -/
def firstDriver : VfsState Unit :=
  VfsCall.step (C := Unit) (.register (filledTable 1)) (bootDrivers eightHeap)

theorem firstDriver_serves : HeapServes firstDriver.drivers := by
  have hfields : firstDriver.drivers.vfsops = 0xDFFFFFBC ∧
      blockNext firstDriver.drivers.memory heapStart = heapStart ∧
      blockPrev firstDriver.drivers.memory heapStart = heapStart ∧
      blockSize firstDriver.drivers.memory heapStart = heapSize - 72 ∧
      blockSize firstDriver.drivers.memory 0xDFFFFFB8 = 60 ∧
      blockSize firstDriver.drivers.memory 0xDFFFFFF4 = 12 := by
    decide +kernel
  obtain ⟨hptr, hnext, hprev, hsize, hvector, height⟩ := hfields
  have hblock : liveBlock firstDriver.drivers.memory firstDriver.drivers.vfsops =
      ⟨0xDFFFFFB8, 60⟩ := by
    rw [hptr, liveBlock]
    exact congrArg (Extent.mk _) hvector
  refine ⟨[⟨heapStart, heapSize - 72⟩], [⟨0xDFFFFFF4, 12⟩], ?_⟩
  rw [if_neg (by rw [hptr]; decide), hblock]
  refine ⟨⟨⟨rfl, ?_, ?_, ?_, ?_, ?_⟩, ?_, ?_, ?_, ?_⟩, ?_, .inr ⟨by decide, ?_⟩⟩
  · exact List.isChain_cons_cons.mpr ⟨⟨hnext, hprev⟩, List.isChain_singleton _⟩
  · simp [hsize]
  · simp [sizeofFreeBlock, heapSize]
  · simp [Extent.Ascending]
  · simp [Extent.stop, heapStart, heapSize]
  · simp [hvector, height]
  · simp [sizeofFreeBlock]
  · simp [Extent.stop, heapStart, heapSize]
  · simp [Extent.Apart, Extent.stop, heapStart, heapSize]
  · intro x hx
    have hnone : neighbor [⟨heapStart, heapSize - 72⟩] ⟨0xDFFFFFB8, 60⟩ 116 = none := by decide
    rw [show 60 + sizeofOperations = 116 from rfl, hnone] at hx
    cases hx
  · exact ⟨⟨heapStart, heapSize - 72⟩, by decide, fun _ => by decide⟩

/-- The root gets the pointer to the first one, where each call finds what it needs. -/
theorem second_driver_mounts :
    EachCall VfsCall.step CallServed twoDrivers (bootDrivers eightHeap) ∧
      ¬ Throughout VfsCall.step DriversBound twoDrivers (bootDrivers eightHeap) := by
  have hserves : HeapServes (bootDrivers (H := Unit) eightHeap).drivers := by
    refine ⟨[⟨heapStart, heapSize - 12⟩], [⟨0xDFFFFFF4, 12⟩], ?_⟩
    rw [if_pos (show (bootDrivers (H := Unit) eightHeap).drivers.vfsops = 0 from rfl)]
    exact ⟨eightHeap_rep, ⟨heapStart, heapSize - 12⟩, by decide, fun _ => by decide⟩
  refine ⟨⟨⟨rfl, hserves⟩, ⟨rfl, firstDriver_serves⟩, trivial, trivial⟩, fun hbound => ?_⟩
  have hlast := hbound.last
  generalize hs : after VfsCall.step _ _ = s at hlast
  have hwrong : (s.nodes.any fun node => node.driver != operationsAt s.drivers node.source) = true := by
    rw [← hs]
    decide +kernel
  obtain ⟨node, hnode, hne⟩ := List.any_eq_true.mp hwrong
  exact bne_iff_ne.mp hne (hlast node hnode).1

end LakeOS.Analysis
