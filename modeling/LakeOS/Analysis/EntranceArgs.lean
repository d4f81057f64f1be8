import LakeOS.Model.ExeArgs
import LakeOS.Analysis.HeapRequests

/-!
# The arguments on the stack

`EntranceArgs` is what `_start` of a process expects at its stack pointer: `argc`, the
addresses of the arguments, `NULL` and the arguments themselves, without overlap.  The
stack pointer that `add_entrance_args` returns lies one word below the strings, so there is
no room for the addresses: the extents are longer than the interval they should lie in.
-/

set_option autoImplicit false

namespace LakeOS.Analysis

open LakeOS.Library LakeOS.Model

/-- The strings whose addresses stand in the array at `p`, with their terminators. -/
def argExtents (m : Memory) (p : ℕ) : List (List Byte) → List Extent
  | [] => []
  | arg :: rest => ⟨m.load 4 p, arg.length + 1⟩ :: argExtents m (p + 4) rest

/-- The bytes of the strings with their terminators. -/
def argBytes (args : List (List Byte)) : ℕ := (args.map fun arg => arg.length + 1).sum

/-- The bytes of the strings, the array and `argc`. -/
def frameBytes (args : List (List Byte)) : ℕ := argBytes args + 4 * (args.length + 1) + 4

/-- The stack below `base` that the arguments need. -/
def frameExtent (base : ℕ) (args : List (List Byte)) : Extent :=
  ⟨base - frameBytes args, frameBytes args⟩

/-- `argv` is an array of strings, apart from the part of the stack below `base` that they
need and from the free blocks of the heap. -/
structure Arguments (m : Memory) (free : List Extent) (base argv : ℕ) (args : List (List Byte)) :
    Prop where
  base_lt : base < 2 ^ 32
  fits : frameBytes args ≤ base
  string : ∀ i (hi : i < args.length),
    m.read (m.load 4 (argv + 4 * i)) (args[i].length + 1) = args[i] ++ [0] ∧ ∀ c ∈ args[i], c ≠ 0
  apart : ∀ e ∈ ⟨argv, 4 * args.length⟩ :: argExtents m argv args, e.Apart (frameExtent base args)
  offHeap : ∀ e ∈ frameExtent base args :: ⟨argv, 4 * args.length⟩ :: argExtents m argv args,
    ∀ b ∈ free, e.Apart b

/-- The arguments lie at the stack pointer `sp`, and the heap has all its free bytes back. -/
structure EntranceArgs (m : Memory) (free : List Extent) (sp base : ℕ) (args : List (List Byte)) :
    Prop where
  argc : m.load 4 sp = args.length
  argv : ∀ i (hi : i < args.length),
    m.read (m.load 4 (sp + 4 + 4 * i)) (args[i].length + 1) = args[i] ++ [0]
  null : m.load 4 (sp + 4 + 4 * args.length) = 0
  packed : Extent.Packed sp base
    (⟨sp, 4⟩ :: ⟨sp + 4, 4 * (args.length + 1)⟩ :: argExtents m (sp + 4) args)
  freed : ∃ free', FreeListAt m free' ∧ Extent.total free' = Extent.total free

variable {m : Memory} {args : List (List Byte)}

/-! ## There is no room -/

theorem total_argExtents (m : Memory) (p : ℕ) (args : List (List Byte)) :
    Extent.total (argExtents m p args) = argBytes args := by
  induction args generalizing p with
  | nil => rfl
  | cons arg rest ih =>
      rw [argExtents, Extent.total_cons, ih]
      rfl

theorem argExtents_pos (m : Memory) (p : ℕ) (args : List (List Byte)) :
    ∀ e ∈ argExtents m p args, 0 < e.len := by
  induction args generalizing p with
  | nil => exact fun e he => absurd he List.not_mem_nil
  | cons arg rest ih =>
      rw [argExtents]
      exact List.forall_mem_cons.mpr ⟨Nat.succ_pos _, ih (p + 4)⟩

/-- INTERNAL: **the arguments need their bytes.** -/
theorem EntranceArgs.frameBytes_le {free : List Extent} {sp base : ℕ}
    (h : EntranceArgs m free sp base args) (hle : sp ≤ base) : sp + frameBytes args ≤ base := by
  have htotal := h.packed.total_le (by
    intro e he
    rcases List.mem_cons.mp he with rfl | he
    · exact Nat.succ_pos _
    · rcases List.mem_cons.mp he with rfl | he
      · exact Nat.succ_pos _
      · exact argExtents_pos m _ args e he) hle
  rw [Extent.total_cons, Extent.total_cons, total_argExtents] at htotal
  unfold frameBytes
  dsimp only at htotal
  omega

/-! ## Copying -/

theorem copyUp_of_notMem (m : Memory) (dst src n : ℕ) {x : ℕ} (hx : x < dst ∨ dst + 4 * n ≤ x) :
    copyUp m dst src n x = m x := by
  induction n generalizing m dst src with
  | zero => rfl
  | succ n ih =>
      rw [copyUp, ih _ _ _ (by omega)]
      exact Store.save_of_notMem m (by omega)

/-- INTERNAL: `memcpy` writes to its destination only.
SRCLINE: memcpy.c:4-23 -/
theorem memcpy_of_notMem (m : Memory) (dst src len : ℕ) {x : ℕ} (hx : x < dst ∨ dst + len ≤ x) :
    (memcpy m dst src len).2 x = m x := by
  have hwords := copyUp_of_notMem m dst src (len / 4) (x := x) (by omega)
  have hhalf : (if 2 ≤ len % 4 then (copyUp m dst src (len / 4)).save 2 (dst + 4 * (len / 4))
      ((copyUp m dst src (len / 4)).load 2 (src + 4 * (len / 4)))
      else copyUp m dst src (len / 4)) x = m x := by
    split
    · rw [Store.save_of_notMem _ (by omega), hwords]
    · exact hwords
  dsimp only [memcpy]
  split
  · rw [Store.save_of_notMem _ (by split <;> omega), hhalf]
  · exact hhalf

/-- INTERNAL: `memcpy` of words returns the end of its destination. -/
theorem memcpy_words_fst (m : Memory) (dst src n : ℕ) :
    (memcpy m dst src (4 * n)).1 = dst + 4 * n := by
  dsimp only [memcpy]
  rw [Nat.mul_div_cancel_left n (by decide), Nat.mul_mod_right]
  rfl

theorem mem_argExtents (m : Memory) (p : ℕ) (args : List (List Byte)) {i : ℕ}
    (hi : i < args.length) : ⟨m.load 4 (p + 4 * i), args[i].length + 1⟩ ∈ argExtents m p args := by
  induction args generalizing p i with
  | nil => exact absurd hi (Nat.not_lt_zero i)
  | cons arg rest ih =>
      rw [argExtents]
      cases i with
      | zero => exact List.mem_cons_self
      | succ i =>
          apply List.mem_cons_of_mem
          have hmem := ih (p + 4) (Nat.lt_of_succ_lt_succ hi)
          rw [show p + 4 + 4 * i = p + 4 * (i + 1) by omega] at hmem
          exact hmem

theorem argBytes_take_succ (args : List (List Byte)) {n : ℕ} (hn : n < args.length) :
    argBytes (args.take (n + 1)) = argBytes (args.take n) + (args[n].length + 1) := by
  unfold argBytes
  rw [List.take_succ_eq_append_getElem hn, List.map_append, List.sum_append]
  simp

theorem argBytes_take_le (args : List (List Byte)) (n : ℕ) :
    argBytes (args.take n) ≤ argBytes args := by
  have hsplit : argBytes (args.take n ++ args.drop n) =
      argBytes (args.take n) + argBytes (args.drop n) := by
    unfold argBytes
    rw [List.map_append, List.sum_append]
  rw [List.take_append_drop] at hsplit
  omega

/-- INTERNAL: the memory that the arguments are read from: `m'` is `m` there. -/
structure SameArguments (m m' : Memory) (argv : ℕ) (args : List (List Byte)) : Prop where
  array : ∀ x ∈ (⟨argv, 4 * args.length⟩ : Extent), m' x = m x
  string : ∀ e ∈ argExtents m argv args, ∀ x ∈ e, m' x = m x

/-- INTERNAL: an argument, read from a memory that leaves the arguments alone. -/
theorem SameArguments.arg {m m' : Memory} {argv : ℕ} (h : SameArguments m m' argv args) {i : ℕ}
    (hi : i < args.length)
    (hstring : m.read (m.load 4 (argv + 4 * i)) (args[i].length + 1) = args[i] ++ [0])
    (hzero : ∀ c ∈ args[i], c ≠ 0) (hlt : args[i].length < 2 ^ 32) :
    m'.load 4 (argv + 4 * i) = m.load 4 (argv + 4 * i) ∧
      strlen m' (m.load 4 (argv + 4 * i)) = args[i].length := by
  constructor
  · apply Store.load_congr
    intro x hlo hhi
    apply h.array
    exact Extent.mem_def.mpr ⟨by dsimp only; omega, by unfold Extent.stop; dsimp only; omega⟩
  · refine strlen_eq ?_ hzero hlt
    rw [← hstring]
    apply Store.read_congr
    intro x hlo hhi
    exact h.string _ (mem_argExtents m argv args hi) x (Extent.mem_def.mpr ⟨hlo, hhi⟩)

/-- INTERNAL: **the loop** moves `stack_base` down by the strings it has copied, and writes
only to the stack below `base` and to `temp_argv`.
SRCLINE: exe.c:10-14 -/
theorem copyArgs_spec {m : Memory} (m₀ : Memory) (temp : ℕ) {base argv : ℕ} (hbase : base < 2 ^ 32)
    (hfits : argBytes args ≤ base)
    (hstring : ∀ i (hi : i < args.length),
      m.read (m.load 4 (argv + 4 * i)) (args[i].length + 1) = args[i] ++ [0] ∧
        ∀ c ∈ args[i], c ≠ 0)
    (hkeep : ∀ m' : Memory, (∀ x, (x < base - argBytes args ∨ base ≤ x) →
      (x < temp ∨ temp + 4 * args.length ≤ x) → m' x = m₀ x) → SameArguments m m' argv args)
    {n : ℕ} (hn : n ≤ args.length) :
    (copyArgs argv temp n (base, m₀)).1 = base - argBytes (args.take n) ∧
    ∀ x, (x < base - argBytes args ∨ base ≤ x) → (x < temp ∨ temp + 4 * args.length ≤ x) →
      (copyArgs argv temp n (base, m₀)).2 x = m₀ x := by
  induction n with
  | zero => exact ⟨rfl, fun _ _ _ => rfl⟩
  | succ n ih =>
      obtain ⟨hfst, hframe⟩ := ih (Nat.le_of_succ_le hn)
      have htake := argBytes_take_succ args hn
      have hle := argBytes_take_le args (n + 1)
      have hsame := hkeep _ hframe
      obtain ⟨hload, hlen⟩ := hsame.arg hn (hstring n hn).1 (hstring n hn).2 (by omega)
      have hnext : sub32 (base - argBytes (args.take n)) (args[n].length + 1) =
          base - argBytes (args.take (n + 1)) := by
        rw [sub32_eq (by omega) (by omega), htake, Nat.sub_sub]
      dsimp only [copyArgs]
      rw [hload, hlen, hfst, hnext]
      refine ⟨rfl, fun x hx hx' => ?_⟩
      rw [Store.save_of_notMem _ (by omega), strcpy, hlen, memcpy_of_notMem _ _ _ _ (by omega)]
      exact hframe x hx hx'

/-- INTERNAL: `temp_argv` lies in a block that was free. -/
theorem Taken.payload_inside {fl fl' : List Extent} {e : Extent} {n : ℕ}
    (h : Taken fl (allocBytes n) fl' e) (hn : n + sizeofSizeT < 2 ^ 32) :
    ∃ c ∈ fl, ∀ x, e.start + sizeofSizeT ≤ x → x < e.start + sizeofSizeT + n → x ∈ c := by
  have hbytes := allocBytes_eq hn
  have hlen := h.len_eq
  obtain ⟨c, hc, hlo, hhi⟩ := h.inside
  refine ⟨c, hc, fun x hx hx' => ?_⟩
  rw [Extent.mem_def]
  unfold Extent.stop sizeofSizeT at *
  omega

section

variable {free : List Extent} {base argv : ℕ}

/-- INTERNAL: the arguments are the same to `add_entrance_args` in every memory that differs
on the heap and on the stack only. -/
theorem Arguments.same (h : Arguments m free base argv args) {m' : Memory}
    (hkeep : ∀ x, x ∉ frameExtent base args → (∀ c ∈ free, x ∉ c) → m' x = m x) :
    SameArguments m m' argv args := by
  have hevery : ∀ e ∈ ⟨argv, 4 * args.length⟩ :: argExtents m argv args, ∀ x ∈ e, m' x = m x := by
    intro e he x hx
    apply hkeep
    · exact notMem_of_apart (h.apart e he) hx
    · intro c hc
      exact notMem_of_apart (h.offHeap e (List.mem_cons_of_mem _ he) c hc) hx
  exact ⟨hevery _ List.mem_cons_self, fun e he => hevery e (List.mem_cons_of_mem _ he)⟩

/-- INTERNAL: **where the stack pointer ends**: one word below the strings.
SRCLINE: exe.c:6-27 -/
theorem addEntranceArgs_spec (h : FreeListAt m free) (hargs : Arguments m free base argv args)
    {b : Extent} (hroom : firstFit free (allocBytes (4 * (args.length + 1))) = some b)
    (hhead : WholeFit free (allocBytes (4 * (args.length + 1))) b → b.start ≠ heapStart) :
    ∃ m', addEntranceArgs m base args.length argv = some (base - argBytes args - 4, m') := by
  have hbase := hargs.base_lt
  have hfits := hargs.fits
  unfold frameBytes at hfits
  have hn : 4 * (args.length + 1) + sizeofSizeT < 2 ^ 32 := by
    unfold sizeofSizeT
    omega
  have hbytes := allocBytes_eq hn
  have hfit := (mem_of_firstFit hroom).2
  have hinside := h.inside b (mem_of_firstFit hroom).1
  have hbound : allocBytes (4 * (args.length + 1)) + sizeofFreeBlock < 2 ^ 32 := by
    unfold Extent.stop heapStart heapSize sizeofFreeBlock at *
    omega
  obtain ⟨m₁, free', e, halloc, htaken, -, -, hframe⟩ := kmalloc_found h hbound
    (by unfold sizeofSizeT sizeofFreeBlock at *; omega) hroom hhead
  obtain ⟨c, hc, htemp⟩ := htaken.payload_inside hn
  obtain ⟨temp, htemp_eq⟩ : ∃ temp, temp = e.start + sizeofSizeT := ⟨_, rfl⟩
  rw [← htemp_eq] at halloc htemp
  have hfree : ∀ x, (∀ d ∈ free, x ∉ d) → x < temp ∨ temp + 4 * (args.length + 1) ≤ x := by
    intro x hx
    by_contra hin
    exact hx c hc (htemp x (by omega) (by omega))
  have hmul : mul32 4 (args.length + 1) = 4 * (args.length + 1) := mul32_eq (by omega)
  unfold addEntranceArgs
  rw [hmul, halloc, Option.map_some]
  dsimp only
  -- up to the loop only free blocks change
  obtain ⟨m₂, hm₂⟩ : ∃ m₂, m₂ = m₁.save 4 (temp + 4 * args.length) 0 := ⟨_, rfl⟩
  have hkeep₂ : ∀ x, (∀ d ∈ free, x ∉ d) → m₂ x = m x := by
    intro x hx
    have hout := hfree x hx
    rw [hm₂, Store.save_of_notMem _ (by omega), hframe x hx]
  rw [← hm₂]
  have hloop := copyArgs_spec m₂ temp hbase (by omega) hargs.string ?_
    (le_refl args.length)
  · have hfst := hloop.1
    rw [List.take_length] at hfst
    have hdst : sub32 (base - argBytes args) (4 * (args.length + 1)) =
        base - argBytes args - 4 * (args.length + 1) := sub32_eq (by omega) (by omega)
    have hback : base - argBytes args - 4 * (args.length + 1) + 4 * (args.length + 1) =
        base - argBytes args := Nat.sub_add_cancel (by omega)
    have hsp : sub32 (base - argBytes args) 4 = base - argBytes args - 4 :=
      sub32_eq (by omega) (by omega)
    rw [hfst, hdst, memcpy_words_fst, hback, hsp]
    exact ⟨_, rfl⟩
  · intro m' hm'
    apply hargs.same
    intro x hx hx'
    have hout := hfree x hx'
    rw [← hkeep₂ x hx']
    apply hm'
    · rw [Extent.mem_def] at hx
      unfold frameExtent frameBytes Extent.stop at hx
      dsimp only at hx
      omega
    · omega

/-- **The arguments of a process.**  Whatever the arguments are, `add_entrance_args`
returns a stack pointer that does not have them: it lies one word below the strings.
SRCLINE: exe.c:6-27 -/
theorem entrance_args_lost (h : FreeListAt m free) (hargs : Arguments m free base argv args)
    {b : Extent} (hroom : firstFit free (allocBytes (4 * (args.length + 1))) = some b)
    (hhead : WholeFit free (allocBytes (4 * (args.length + 1))) b → b.start ≠ heapStart) :
    ∃ sp m', addEntranceArgs m base args.length argv = some (sp, m') ∧
      ¬ EntranceArgs m' free sp base args := by
  obtain ⟨m', hrun⟩ := addEntranceArgs_spec h hargs hroom hhead
  have hfits := hargs.fits
  refine ⟨_, m', hrun, fun hok => ?_⟩
  have hle := hok.frameBytes_le (by omega)
  unfold frameBytes at hfits hle
  omega

end

/-! ## One argument -/

/-- No byte is set but the string `a` at 0x2000 and its address at 0x1000. -/
def oneArgBytes : Memory := fun x => if x = 0x2000 then 0x61 else if x = 0x1001 then 0x20 else 0

/-- The heap as it starts. -/
def oneArgMemory : Memory := kmmInit oneArgBytes

theorem oneArgMemory_free : FreeListAt oneArgMemory [⟨heapStart, heapSize⟩] :=
  (HeapRep.init _).free

theorem oneArg_arguments :
    Arguments oneArgMemory [⟨heapStart, heapSize⟩] 0xC0000000 0x1000 [[0x61]] where
  base_lt := by decide
  fits := by decide
  string i hi := by
    have hzero : i = 0 := Nat.lt_one_iff.mp hi
    have hread : oneArgMemory.read (oneArgMemory.load 4 0x1000) 2 = [0x61, 0] := by decide +kernel
    subst hzero
    exact ⟨hread, by simp⟩
  apart := by
    unfold Extent.Apart
    decide +kernel
  offHeap := by
    unfold Extent.Apart
    decide +kernel

theorem oneArg_room :
    firstFit [⟨heapStart, heapSize⟩] (allocBytes 8) = some ⟨heapStart, heapSize⟩ ∧
      ¬ WholeFit [⟨heapStart, heapSize⟩] (allocBytes 8) ⟨heapStart, heapSize⟩ :=
  ⟨rfl, fun hwhole => absurd hwhole.2 (by decide)⟩

/-- The argument `a`. -/
theorem entrance_args_lost_one :
    ∃ sp m', addEntranceArgs oneArgMemory 0xC0000000 1 0x1000 = some (sp, m') ∧
      ¬ EntranceArgs m' [⟨heapStart, heapSize⟩] sp 0xC0000000 [[0x61]] := by
  have hlost := entrance_args_lost oneArgMemory_free oneArg_arguments oneArg_room.1
    fun hwhole => absurd hwhole oneArg_room.2
  exact hlost

/-- One argument is enough: the word above `argc` is not its address. -/
theorem entrance_args_overlap :
    ¬ ∀ (m : Memory) (free : List Extent) (base argv : ℕ) (args : List (List Byte)) (b : Extent)
      (sp : ℕ) (m' : Memory), FreeListAt m free → Arguments m free base argv args →
      firstFit free (allocBytes (4 * (args.length + 1))) = some b →
      (WholeFit free (allocBytes (4 * (args.length + 1))) b → b.start ≠ heapStart) →
      addEntranceArgs m base args.length argv = some (sp, m') →
        EntranceArgs m' free sp base args := by
  intro hclaim
  have hhead : WholeFit [⟨heapStart, heapSize⟩] (allocBytes 8) ⟨heapStart, heapSize⟩ →
      heapStart ≠ heapStart := fun hwhole => absurd hwhole oneArg_room.2
  obtain ⟨m', hrun⟩ := addEntranceArgs_spec oneArgMemory_free oneArg_arguments oneArg_room.1
    hhead
  have hok := hclaim oneArgMemory _ 0xC0000000 0x1000 [[0x61]] _ _ m' oneArgMemory_free
    oneArg_arguments oneArg_room.1 hhead hrun
  exact absurd (hok.frameBytes_le (by decide)) (by decide)

end LakeOS.Analysis
