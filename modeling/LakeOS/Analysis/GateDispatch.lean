import Mathlib.Tactic.IntervalCases
import LakeOS.Library.TaskFile
import LakeOS.Model.Tables

/-!
# Where interrupts lead

After the tables are filled, each vector leads to its own stub in ring 0, those of the interrupt
requests to the stubs of the requests.  Programs reach none by an instruction but the one of system
calls, and enabling or disabling gates changes nothing else.  The ports that programs can use follow
from the task state segment.
-/

set_option autoImplicit false

namespace LakeOS.Analysis

open LakeOS.Library LakeOS.Model

/-! ## Entries and their bytes -/

/-- INTERNAL: the lowest bits of a number. -/
theorem and_low (v w : ℕ) : v &&& (2 ^ w - 1) = v % 2 ^ w := Nat.and_two_pow_sub_one_eq_mod v w

/-- INTERNAL: the bytes of a gate as the processor sees them. -/
theorem gateOf_bytes (base segment flags : ℕ) (hbase : base < 2 ^ 32) (hsegment : segment < 2 ^ 16)
    (hflags : flags < 2 ^ 8) :
    gateOf (IdtEntry.bytes ⟨base &&& 0xFFFF, segment, 0, flags, (base >>> 16) &&& 0xFFFF⟩) =
      ⟨base, segment, flags / 32 % 4, flags.testBit 7, flags % 32⟩ := by
  have hlow : base &&& 0xFFFF = base % 2 ^ 16 := and_low base 16
  have hhigh : (base >>> 16) &&& 0xFFFF = base / 2 ^ 16 % 2 ^ 16 := shiftRight_and_bits base 16 16
  have hfield : fieldAt (IdtEntry.bytes
      ⟨base &&& 0xFFFF, segment, 0, flags, (base >>> 16) &&& 0xFFFF⟩) 5 1 = flags := by
    simp [fieldAt, IdtEntry.bytes, leBytes, leValue]
    omega
  rw [gateOf, hfield, hlow, hhigh, Gate.mk.injEq]
  refine ⟨?_, ?_, rfl, rfl, rfl⟩
  · simp [fieldAt, IdtEntry.bytes, leBytes, leValue]
    omega
  · simp [fieldAt, IdtEntry.bytes, leBytes, leValue]
    omega

/-- INTERNAL: four bits above four others. -/
theorem nibbles_or : ∀ low < 16, ∀ flags < 256,
    (low ||| (flags &&& 0xF0)) % 16 = low ∧ (low ||| (flags &&& 0xF0)) < 256 ∧
      (low ||| (flags &&& 0xF0)).testBit 7 = flags.testBit 7 := by decide +kernel

/-- **A descriptor says what it was made of.** -/
theorem segmentOf_gdtEntry (base limit access flags : ℕ) (hbase : base < 2 ^ 32)
    (hlimit : limit < 2 ^ 20) (haccess : access < 2 ^ 8) (hflags : flags < 2 ^ 8) :
    segmentOf (gdtEntry base limit access flags).bytes =
      { base := base
        limit := if flags.testBit 7 then 4096 * limit + 4095 else limit
        privilege := access / 32 % 4
        present := access.testBit 7
        code := access.testBit 4 && access.testBit 3
        data := access.testBit 4 && !access.testBit 3
        access := access.testBit 1 } := by
  have hlow : limit &&& 0xFFFF = limit % 2 ^ 16 := and_low limit 16
  have hhigh : (limit >>> 16) &&& 0xF = limit / 2 ^ 16 % 2 ^ 4 := shiftRight_and_bits limit 4 16
  have hbase₀ : base &&& 0xFFFF = base % 2 ^ 16 := and_low base 16
  have hbase₁ : (base >>> 16) &&& 0xFF = base / 2 ^ 16 % 2 ^ 8 := shiftRight_and_bits base 8 16
  have hbase₂ : (base >>> 24) &&& 0xFF = base / 2 ^ 24 % 2 ^ 8 := shiftRight_and_bits base 8 24
  obtain ⟨hor, horlt, hgranularity⟩ :=
    nibbles_or (limit / 2 ^ 16 % 2 ^ 4) (by omega) flags (by omega)
  generalize hnibbles : limit / 2 ^ 16 % 2 ^ 4 ||| (flags &&& 0xF0) = nibbles
    at hor horlt hgranularity
  have hbytes : (gdtEntry base limit access flags).bytes = leBytes 2 (limit % 2 ^ 16) ++
      leBytes 2 (base % 2 ^ 16) ++ leBytes 1 (base / 2 ^ 16 % 2 ^ 8) ++ leBytes 1 access ++
      leBytes 1 nibbles ++ leBytes 1 (base / 2 ^ 24 % 2 ^ 8) := by
    rw [GdtEntry.bytes, gdtEntry, hlow, hhigh, hbase₀, hbase₁, hbase₂, hnibbles]
  rw [hbytes]
  have hrights : fieldAt (leBytes 2 (limit % 2 ^ 16) ++ leBytes 2 (base % 2 ^ 16) ++
      leBytes 1 (base / 2 ^ 16 % 2 ^ 8) ++ leBytes 1 access ++ leBytes 1 nibbles ++
      leBytes 1 (base / 2 ^ 24 % 2 ^ 8)) 5 1 = access := by
    simp [fieldAt, leBytes, leValue]
    omega
  have hlast : fieldAt (leBytes 2 (limit % 2 ^ 16) ++ leBytes 2 (base % 2 ^ 16) ++
      leBytes 1 (base / 2 ^ 16 % 2 ^ 8) ++ leBytes 1 access ++ leBytes 1 nibbles ++
      leBytes 1 (base / 2 ^ 24 % 2 ^ 8)) 6 1 = nibbles := by
    simp [fieldAt, leBytes, leValue]
    omega
  have hraw : fieldAt (leBytes 2 (limit % 2 ^ 16) ++ leBytes 2 (base % 2 ^ 16) ++
      leBytes 1 (base / 2 ^ 16 % 2 ^ 8) ++ leBytes 1 access ++ leBytes 1 nibbles ++
      leBytes 1 (base / 2 ^ 24 % 2 ^ 8)) 0 2 = limit % 2 ^ 16 := by
    simp [fieldAt, leBytes, leValue]
    omega
  have hlimit' : limit % 2 ^ 16 + 2 ^ 16 * (limit / 2 ^ 16 % 2 ^ 4) = limit := by omega
  rw [segmentOf, hrights, hlast, hraw, hor, hgranularity, hlimit', Segment.mk.injEq]
  refine ⟨?_, rfl, rfl, rfl, rfl, rfl, rfl⟩
  simp [fieldAt, leBytes, leValue]
  omega

/-! ## The gates -/

/-- The stub of a vector. -/
def stubOf (isr irq : ℕ → ℕ) (n : ℕ) : ℕ := if 0x20 ≤ n ∧ n < 0x30 then irq (n - 0x20) else isr n

/-- The flags of a gate. -/
def gateFlags (n : ℕ) (up : Bool) : ℕ :=
  (if n = 128 then 0x6E else 0x0E) + if up then 0x80 else 0

/-- The gate of each vector leads to its stub, and is enabled or not. -/
def Installed (stub : ℕ → ℕ) (up : ℕ → Bool) (t : Idt) : Prop :=
  ∀ n < 256, t n =
    ⟨stub n &&& 0xFFFF, 0x08, 0, gateFlags n (up n), (stub n >>> 16) &&& 0xFFFF⟩

/-- INTERNAL: the gates that are set. -/
theorem isrInitGates_eq (isr : ℕ → ℕ) (t : Idt) {m n : ℕ} (hn : n < m) :
    isrInitGates isr m t n =
      ⟨isr n &&& 0xFFFF, 0x08, 0, gateFlags n false, (isr n >>> 16) &&& 0xFFFF⟩ := by
  induction m with
  | zero => exact absurd hn (Nat.not_lt_zero n)
  | succ m ih =>
    rw [isrInitGates, idtSetgate]
    by_cases hnm : n = m
    · subst hnm
      rw [Function.update_self]
      unfold gateFlags
      split <;> rfl
    · rw [Function.update_of_ne hnm, ih (by omega)]

/-- INTERNAL: a gate that is enabled. -/
theorem gateFlags_enable (n : ℕ) (up : Bool) : gateFlags n up ||| 0x80 = gateFlags n true := by
  unfold gateFlags
  cases up <;> split <;> rfl

/-- INTERNAL: a gate that is disabled. -/
theorem gateFlags_disable (n : ℕ) (up : Bool) : gateFlags n up &&& 0x7F = gateFlags n false := by
  unfold gateFlags
  cases up <;> split <;> rfl

/-- INTERNAL: the gates that are enabled one after the other. -/
theorem isrEnableGates_eq (t : Idt) (m n : ℕ) : isrEnableGates m t n =
    if n < m then { t n with flags := (t n).flags ||| 0x80 } else t n := by
  induction m with
  | zero => rw [if_neg (Nat.not_lt_zero n)]; rfl
  | succ m ih =>
    rw [isrEnableGates, idtEnablegate]
    by_cases hnm : n = m
    · subst hnm
      rw [Function.update_self, ih, if_neg (Nat.lt_irrefl n), if_pos (Nat.lt_succ_self n)]
    · rw [Function.update_of_ne hnm, ih]
      exact if_congr (by omega) rfl rfl

/-- INTERNAL: the gates of the interrupt requests. -/
theorem irqInitGates_eq (irq : ℕ → ℕ) (t : Idt) (m n : ℕ) : irqInitGates irq m t n =
    if 0x20 ≤ n ∧ n < 0x20 + m then
      ⟨irq (n - 0x20) &&& 0xFFFF, 0x08, 0, 0x8E, (irq (n - 0x20) >>> 16) &&& 0xFFFF⟩
    else t n := by
  induction m with
  | zero => rw [if_neg (by omega)]; rfl
  | succ m ih =>
    rw [irqInitGates, idtSetgate]
    by_cases hnm : n = 0x20 + m
    · subst hnm
      rw [Function.update_self, if_pos (by omega), Nat.add_sub_cancel_left]
      rfl
    · rw [Function.update_of_ne hnm, ih]
      exact if_congr (by omega) rfl rfl

/-- **The gates after `ISR_init` and `IRQ_init`.**
SRCLINE: isr.c:264-273, irq.c:43-67 -/
theorem installed_init (isr irq : ℕ → ℕ) (t : Idt) :
    Installed (stubOf isr irq) (fun _ => true) (irqInit irq (isrInit isr t)) := by
  intro n hn
  rw [irqInit, irqInitGates_eq, stubOf]
  by_cases hirq : 0x20 ≤ n ∧ n < 0x30
  · have hne : n ≠ 128 := by omega
    rw [if_pos (by omega), if_pos hirq, gateFlags, if_neg hne]
    rfl
  · rw [if_neg (by omega), if_neg hirq, isrInit, isrEnableGates_eq, if_pos hn,
      isrInitGates_eq isr t hn]
    dsimp only
    rw [gateFlags_enable]

/-- A gate is enabled or disabled. -/
inductive GateCall where
  | enable (n : ℕ)
  | disable (n : ℕ)

/-- The table after the calls. -/
def gateRun (calls : List GateCall) (t : Idt) : Idt :=
  calls.foldl (fun t c => match c with
    | .enable n => idtEnablegate n t
    | .disable n => idtDisablegate n t) t

/-- The gates that are enabled after the calls: the last call for a vector decides. -/
def enabledAfter (calls : List GateCall) (up : ℕ → Bool) : ℕ → Bool :=
  calls.foldl (fun up c => match c with
    | .enable n => Function.update up n true
    | .disable n => Function.update up n false) up

/-- INTERNAL: **one call.** -/
theorem Installed.step {stub : ℕ → ℕ} {up : ℕ → Bool} {t : Idt} (h : Installed stub up t)
    (c : GateCall) : Installed stub (enabledAfter [c] up) (gateRun [c] t) := by
  intro n hn
  have hgate := h n hn
  cases c with
  | enable m =>
    simp only [gateRun, enabledAfter, List.foldl_cons, List.foldl_nil, idtEnablegate]
    by_cases hnm : n = m
    · subst hnm
      rw [Function.update_self, Function.update_self, hgate, gateFlags_enable]
    · rw [Function.update_of_ne hnm, Function.update_of_ne hnm, hgate]
  | disable m =>
    simp only [gateRun, enabledAfter, List.foldl_cons, List.foldl_nil, idtDisablegate]
    by_cases hnm : n = m
    · subst hnm
      rw [Function.update_self, Function.update_self, hgate, gateFlags_disable]
    · rw [Function.update_of_ne hnm, Function.update_of_ne hnm, hgate]

/-- INTERNAL: all of them. -/
theorem Installed.run {stub : ℕ → ℕ} (calls : List GateCall) :
    ∀ {up : ℕ → Bool} {t : Idt}, Installed stub up t →
      Installed stub (enabledAfter calls up) (gateRun calls t) := by
  induction calls with
  | nil => exact id
  | cons c calls ih => exact fun h => ih (h.step c)

/-- The tables, with the limits that they are loaded with.
SRCLINE: idt.c:5-8, gdt.c:42-43 -/
def systemTables (tss : ℕ) (t : Idt) : SystemTables where
  gates n := (t n).bytes
  gatesLimit := 256 * 8 - 1
  segments n := (gdtEntries tss n).bytes
  segmentsLimit := 6 * 8 - 1

/-- INTERNAL: the segment of the kernel's code. -/
theorem kernelCode (tss : ℕ) : segmentOf (gdtEntries tss 1).bytes =
    ⟨0, 0xFFFFFFFF, 0, true, true, false, true⟩ := by
  rw [gdtEntries, segmentOf_gdtEntry _ _ _ _ (by decide) (by decide) (by decide) (by decide)]
  rfl

/-- **Where a vector leads.**  Whatever gates were enabled and disabled since the start, a vector
leads to its stub in ring 0 with interrupts off, if its gate is enabled; a program can name none but
that of the system calls. -/
theorem enter_gateRun (isr irq : ℕ → ℕ) (tss : ℕ) (t : Idt) (calls : List GateCall)
    (level : ℕ) (software : Bool) (n : ℕ) (hstub : stubOf isr irq n < 2 ^ 32)
    (hlevel : level ≤ 3) (hn : n < 256) :
    (systemTables tss (gateRun calls (irqInit irq (isrInit isr t)))).enter level software n =
      if software ∧ 0 < level ∧ n ≠ 128 then .error (.protection (8 * n + 2))
      else if enabledAfter calls (fun _ => true) n then .ok ⟨stubOf isr irq n, 0, true⟩
      else .error (.gateNotPresent (8 * n + 2 + if software then 0 else 1)) := by
  have hgate := (installed_init isr irq t).run calls n hn
  generalize gateRun calls (irqInit irq (isrInit isr t)) = table at hgate ⊢
  generalize enabledAfter calls (fun _ => true) n = up at hgate ⊢
  have hflags : gateFlags n up < 2 ^ 8 ∧ gateFlags n up % 32 = 0xE ∧
      gateFlags n up / 32 % 4 = (if n = 128 then 3 else 0) ∧ (gateFlags n up).testBit 7 = up := by
    unfold gateFlags
    cases up <;> split <;> decide
  obtain ⟨hlt, htype, hprivilege, hpresent⟩ := hflags
  have hof := gateOf_bytes (stubOf isr irq n) 8 (gateFlags n up) hstub (by decide) hlt
  rw [← hgate, htype, hprivilege, hpresent] at hof
  have hreach : (software = true ∧ (if n = 128 then 3 else 0) < level) ↔
      software = true ∧ 0 < level ∧ n ≠ 128 := by
    by_cases hcall : n = 128
    · rw [if_pos hcall]
      exact ⟨fun hand => absurd hand.2 (by omega), fun hand => absurd hcall hand.2.2⟩
    · rw [if_neg hcall]
      exact ⟨fun hand => ⟨hand.1, hand.2, hcall⟩, fun hand => ⟨hand.1, hand.2.1⟩⟩
  have hlimit : ¬ 256 * 8 - 1 < 8 * n + 7 := by omega
  simp only [SystemTables.enter, systemTables, hof, Nat.reduceDiv, kernelCode, if_neg hlimit, hreach]
  rw [if_neg (by decide)]
  by_cases hprotected : software = true ∧ 0 < level ∧ n ≠ 128
  · rw [if_pos hprotected, if_pos hprotected, if_pos hprotected.1, Nat.add_zero]
  rw [if_neg hprotected, if_neg hprotected]
  cases up with
  | false => rfl
  | true =>
    rw [if_neg (by decide), if_neg (by simp), if_neg (by decide), if_neg (by omega), if_pos rfl,
      Nat.zero_add]
    rfl

/-- A timer interrupt during a program, with stubs at some addresses. -/
theorem enter_gateRun_timer :
    (systemTables 0xC0105000 (gateRun [.disable 3] (irqInit (fun n => 0xC0102000 + 16 * n)
        (isrInit (fun n => 0xC0101000 + 16 * n) fun _ => ⟨0, 0, 0, 0, 0⟩)))).enter 3 false 32 =
      if false = true ∧ 0 < 3 ∧ 32 ≠ 128 then .error (.protection (8 * 32 + 2))
      else if enabledAfter [.disable 3] (fun _ => true) 32 then
        .ok ⟨stubOf (fun n => 0xC0101000 + 16 * n) (fun n => 0xC0102000 + 16 * n) 32, 0, true⟩
      else .error (.gateNotPresent (8 * 32 + 2 + if false = true then 0 else 1)) :=
  enter_gateRun _ _ _ _ _ 3 false 32 (by decide) le_rfl (by decide)

/-! ## The ports that programs can use -/

/-- The bytes of the task state segment that are not always `0`. -/
def tssByte (esp0 i : ℕ) : ℕ :=
  if i = 0 ∨ i = 8 then 0x10
  else if 4 ≤ i ∧ i < 8 then esp0 / 2 ^ (8 * (i - 4)) % 2 ^ 8
  else 0

/-- INTERNAL: the bytes of the segment. -/
theorem tssBytes_getElem? (esp0 : ℕ) {i : ℕ} (hi : i < 112) :
    (TssEntry.bytes ⟨0x10, esp0, 0x10⟩)[i]? = some (BitVec.ofNat 8 (tssByte esp0 i)) := by
  have hlength : (leBytes 2 0x10 ++ leBytes 2 0 ++ leBytes 4 esp0 ++ leBytes 2 0x10).length = 10 := by
    simp
  rw [TssEntry.bytes]
  rcases Nat.lt_or_ge i 10 with hlow | hhigh
  · -- the fields
    rw [List.getElem?_append_left (by rw [hlength]; exact hlow)]
    interval_cases i <;>
      simp [leBytes, tssByte, ← BitVec.toNat_inj, Nat.div_div_eq_div_mul]
  · rw [List.getElem?_append_right (by rw [hlength]; exact hhigh), hlength,
      List.getElem?_replicate_of_lt (by unfold sizeofTss; omega), tssByte, if_neg (by omega), if_neg (by omega)]
    rfl

theorem tssByte_lt (esp0 i : ℕ) : tssByte esp0 i < 2 ^ 8 := by
  unfold tssByte
  split_ifs
  · decide
  · exact Nat.mod_lt _ (by decide)
  · decide

/-- INTERNAL: two bytes of the segment. -/
theorem fieldAt_tss (esp0 : ℕ) {i : ℕ} (hi : i + 1 < 112) :
    fieldAt (TssEntry.bytes ⟨0x10, esp0, 0x10⟩) i 2 =
      2 ^ 8 * tssByte esp0 (i + 1) + tssByte esp0 i := by
  obtain ⟨hoff, hbyte⟩ := List.getElem?_eq_some_iff.mp (tssBytes_getElem? esp0 (by omega : i < 112))
  obtain ⟨hoff', hbyte'⟩ := List.getElem?_eq_some_iff.mp (tssBytes_getElem? esp0 hi)
  rw [fieldAt, List.drop_eq_getElem_cons hoff, List.drop_eq_getElem_cons hoff', hbyte, hbyte']
  simp only [List.take_succ_cons, List.take_zero, leValue, BitVec.toNat_ofNat,
    Nat.mod_eq_of_lt (tssByte_lt esp0 _)]
  omega

/-- INTERNAL: the bits of the segment. -/
theorem tssByte_testBit (esp0 : ℕ) (port : ℕ) :
    (tssByte esp0 (port / 8)).testBit (port % 8) = true ↔
      port = 4 ∨ port = 68 ∨ (32 ≤ port ∧ port < 64 ∧ esp0.testBit (port - 32) = true) := by
  have hbit : ∀ j < 8, (0x10 : ℕ).testBit j = true ↔ j = 4 := by decide
  have hmod := Nat.mod_lt port (show 0 < 8 by decide)
  unfold tssByte
  split
  next hfixed =>
    rw [hbit _ hmod]
    omega
  next hother =>
    split
    next hstack =>
      have hplace : port % 8 + 8 * (port / 8 - 4) = port - 32 := by omega
      rw [Nat.testBit_mod_two_pow, Nat.testBit_div_two_pow, hplace, Bool.and_eq_true,
        decide_eq_true_iff]
      constructor
      · exact fun hand => .inr (.inr ⟨by omega, by omega, hand.2⟩)
      · rintro (rfl | rfl | ⟨-, -, hset⟩)
        · omega
        · omega
        · exact ⟨hmod, hset⟩
    next hzero =>
      rw [Nat.zero_testBit]
      constructor
      · exact fun hfalse => absurd hfalse Bool.false_ne_true
      · rintro (rfl | rfl | ⟨hlow, hhigh, -⟩) <;> omega

/-- **The ports that a program can use.**  The kernel does not set the map of the ports, so that
it is the task state segment itself: programs can use all ports below 888 but two, and some that
depend on the kernel stack.
SRCLINE: tss.c:9-14, gdt.c:45-54, exe.c:88-90, exe.c:130 -/
theorem portAllowed_iff (tss stackTop esp0 port : ℕ) (htss : tss < 2 ^ 32) :
    portAllowed { tssInit stackTop with esp0 := esp0 }.bytes
        (segmentOf (gdtEntries tss 5).bytes).limit port 1 = true ↔
      port < 888 ∧ port ≠ 4 ∧ port ≠ 68 ∧
        ¬ (32 ≤ port ∧ port < 64 ∧ esp0.testBit (port - 32) = true) := by
  have hlimit : (segmentOf (gdtEntries tss 5).bytes).limit = 111 := by
    rw [gdtEntries, segmentOf_gdtEntry _ _ _ _ htss (by decide) (by decide) (by decide)]
    · rfl
    all_goals exact fun h => absurd h (by decide)
  have hmap : fieldAt (TssEntry.bytes ⟨0x10, esp0, 0x10⟩) 102 2 = 0 := fieldAt_tss esp0 (by decide)
  rw [hlimit, tssInit]
  dsimp only
  rw [portAllowed, hmap, Nat.zero_add, List.range_one, List.all_cons, List.all_nil, Bool.and_true,
    Bool.and_eq_true, decide_eq_true_iff, Nat.add_zero (port % 8)]
  by_cases hport : port < 888
  · have hmod := Nat.mod_lt port (show 0 < 8 by decide)
    have hbit := tssByte_testBit esp0 port
    rw [fieldAt_tss esp0 (by omega), Nat.testBit_two_pow_mul_add _ (tssByte_lt esp0 _), if_pos hmod,
      Bool.not_eq_true', ← Bool.not_eq_true, hbit]
    simp only [hport, true_and, not_or, and_iff_right_iff_imp]
    exact fun _ => by omega
  · exact ⟨fun hand => absurd hand.1 (by omega), fun hand => absurd hand.1 hport⟩

/-- The data port of the first disk. -/
theorem portAllowed_disk :
    portAllowed { tssInit 0xC010A000 with esp0 := 0xD0002010 }.bytes
        (segmentOf (gdtEntries 0xC0105000 5).bytes).limit 0x1F0 1 = true ↔
      0x1F0 < 888 ∧ 0x1F0 ≠ 4 ∧ 0x1F0 ≠ 68 ∧
        ¬ (32 ≤ 0x1F0 ∧ 0x1F0 < 64 ∧ (0xD0002010).testBit (0x1F0 - 32) = true) :=
  portAllowed_iff 0xC0105000 0xC010A000 0xD0002010 0x1F0 (by decide)

end LakeOS.Analysis
