import LakeOS.Library.TaskFile
import LakeOS.Model.Ata
import Mathlib.Data.Fintype.Basic
import Mathlib.Tactic.FinCases
import Mathlib.Tactic.IntervalCases

/-!
# The sectors that operations on drives address

The drives of a channel take every byte written to its ports.  From those that an operation writes
they read the sector that it was asked for, whichever of the three kinds of address it uses.
-/

set_option autoImplicit false

namespace LakeOS.Analysis

open LakeOS.Library LakeOS.Model

/-- The registers of a channel, and what its drives have done. -/
structure AtaChannel where
  task : TaskFile
  accesses : List SectorAccess

namespace AtaChannel

/-- A write to a port reaches the channel whose ports begin at `base`. -/
def write (base : ℕ) (a : AtaChannel) : PortWrite → AtaChannel
  | .byte port data =>
    if port = base + 7 then { a with accesses := a.accesses ++ a.task.execute data }
    else if base ≤ port then { a with task := a.task.write (port - base) data }
    else a
  | .word _ _ => a

/-- The writes reach the channel one after the other. -/
def run (base : ℕ) (a : AtaChannel) (writes : List PortWrite) : AtaChannel :=
  writes.foldl (write base) a

@[simp] theorem run_nil {base : ℕ} (a : AtaChannel) : a.run base [] = a := rfl

/-- INTERNAL: a list of writes after another one. -/
@[simp] theorem run_append {base : ℕ} (a : AtaChannel) (xs ys : List PortWrite) :
    a.run base (xs ++ ys) = (a.run base xs).run base ys :=
  List.foldl_append

/-- INTERNAL: the words of a sector are not for the registers. -/
theorem run_words {base port : ℕ} (a : AtaChannel) (ws : List ℕ) :
    a.run base (ws.map fun w => .word port (w % 2 ^ 16)) = a := by
  induction ws with
  | nil => rfl
  | cons w ws ih => exact ih

end AtaChannel

/-! ## Registers -/

/-- INTERNAL: the ports of a channel. -/
theorem ideChannels_ports (c : Fin 2) (n : ℕ) :
    (ideChannels n c).ioBase < 2 ^ 15 ∧
      (ideChannels n c).ctrlBase = (ideChannels n c).ioBase + 0x206 := by
  match c with
  | 0 => exact ⟨by simp [ideChannels], rfl⟩
  | 1 => exact ⟨by simp [ideChannels], rfl⟩

/-- INTERNAL: only the first registers take part in a command. -/
theorem TaskFile.write_high (t : TaskFile) {offset : ℕ} (hoffset : 6 < offset) (data : ℕ) :
    t.write offset data = t := by
  unfold TaskFile.write
  split <;> first | omega | rfl

/-- INTERNAL: one byte for a register. -/
theorem AtaChannel.write_register {base offset : ℕ} (hoffset : offset ≠ 7) (data : ℕ)
    (a : AtaChannel) :
    a.write base (.byte (base + offset) data) =
      { a with task := a.task.write offset data } := by
  rw [AtaChannel.write, if_neg (by omega), if_pos (by omega), Nat.add_sub_cancel_left]

/-- INTERNAL: a register below the command is one byte of the task file. -/
theorem run_register (c : Fin 2) (n : ℕ) {reg : ℕ} (hreg : reg < 7) (data : ℕ) (a : AtaChannel) :
    a.run (ideChannels n c).ioBase (ideWrite (ideChannels n c) reg data) =
      { a with task := a.task.write reg (data % 2 ^ 8) } := by
  have hports := ideChannels_ports c n
  rw [ideWrite, if_neg (by omega), ideWritePort, if_pos (by omega), Nat.mod_eq_of_lt (by omega)]
  exact AtaChannel.write_register (by omega) _ a

/-- INTERNAL: the control register is none of them. -/
theorem run_control (c : Fin 2) (n data : ℕ) (a : AtaChannel) :
    a.run (ideChannels n c).ioBase (ideWritePort (ideChannels n c) ataRegControl data) = a := by
  obtain ⟨hbase, hctrl⟩ := ideChannels_ports c n
  rw [ideWritePort, if_neg (by decide), if_neg (by decide), if_pos (by decide), hctrl,
    show (ideChannels n c).ioBase + 0x206 + ataRegControl - 0x0A =
      (ideChannels n c).ioBase + 0x208 from rfl, Nat.mod_eq_of_lt (by omega)]
  refine (AtaChannel.write_register (by decide) _ a).trans ?_
  rw [TaskFile.write_high _ (by decide)]

/-- INTERNAL: a register behind the command shares its port with one before it. -/
theorem run_sharedRegister (c : Fin 2) (n : ℕ) {reg : ℕ} (hlow : 7 < reg) (hhigh : reg < 0x0C)
    (data : ℕ) (a : AtaChannel) :
    a.run (ideChannels n c).ioBase (ideWrite (ideChannels n c) reg data) =
      { a with task := a.task.write (reg - 6) (data % 2 ^ 8) } := by
  have hports := ideChannels_ports c n
  rw [ideWrite, if_pos ⟨hlow, hhigh⟩, AtaChannel.run_append, AtaChannel.run_append, run_control,
    run_control, ideWritePort, if_neg (by omega), if_pos hhigh,
    show (ideChannels n c).ioBase + reg - 0x06 = (ideChannels n c).ioBase + (reg - 6) by omega,
    Nat.mod_eq_of_lt (by omega)]
  exact AtaChannel.write_register (by omega) _ a

/-- INTERNAL: a command is carried out with the registers that are there. -/
theorem run_command (c : Fin 2) (n data : ℕ) (a : AtaChannel) :
    a.run (ideChannels n c).ioBase (ideWrite (ideChannels n c) ataRegCommand data) =
      { a with accesses := a.accesses ++ a.task.execute (data % 2 ^ 8) } := by
  have hports := ideChannels_ports c n
  have hport : (ideChannels n c).ioBase + ataRegCommand < 2 ^ 16 := by
    unfold ataRegCommand
    omega
  rw [ideWrite, if_neg (by decide), ideWritePort, if_pos (by decide), Nat.mod_eq_of_lt hport]
  exact if_pos rfl

/-- INTERNAL: what follows a command is no other one for a sector. -/
theorem run_transfer (c : Fin 2) (n : ℕ) (direction : Bool) (lbaMode : ℕ) (buff : List ℕ)
    (a : AtaChannel) :
    (a.run (ideChannels n c).ioBase
      (ataTransfer (ideChannels n c) direction lbaMode buff)).accesses = a.accesses := by
  unfold ataTransfer
  cases direction with
  | true => rw [if_pos rfl, AtaChannel.run_words]
  | false =>
    rw [if_neg Bool.false_ne_true, run_command]
    by_cases hmode : lbaMode = 2
    · rw [if_pos hmode]
      exact List.append_nil _
    · rw [if_neg hmode]
      exact List.append_nil _

/-! ## Parameters -/

/-- INTERNAL: the registers behind the parameters of a command of 28 bits. -/
theorem run_params (device : IdeDevice) (address : AtaAddress) (n : ℕ) (a : AtaChannel)
    (hmode : address.lbaMode ≠ 2) :
    a.run (ideChannels n device.channel).ioBase
        (ataParams (ideChannels n device.channel) device address) =
      { a with task :=
        { count := a.task.count.push 1
          low := a.task.low.push (address.lbaIo.getD 0 0 % 2 ^ 8)
          mid := a.task.mid.push (address.lbaIo.getD 1 0 % 2 ^ 8)
          high := a.task.high.push (address.lbaIo.getD 2 0 % 2 ^ 8)
          device := ((if address.lbaMode = 0 then 0xA0 else 0xE0) |||
            device.isSlaveDrive.val <<< 4 ||| address.head) % 2 ^ 8 } } := by
  rw [ataParams, if_neg hmode]
  simp only [AtaChannel.run_append, AtaChannel.run_nil]
  rw [run_register _ _ (by decide), run_register _ _ (by decide), run_register _ _ (by decide),
    run_register _ _ (by decide), run_register _ _ (by decide)]
  rfl

/-- INTERNAL: the registers behind those of an extended command. -/
theorem run_extParams (device : IdeDevice) (address : AtaAddress) (n : ℕ) (a : AtaChannel)
    (hmode : address.lbaMode = 2) :
    a.run (ideChannels n device.channel).ioBase
        (ataParams (ideChannels n device.channel) device address) =
      { a with task :=
        { count := (a.task.count.push 0).push 1
          low := (a.task.low.push (address.lbaIo.getD 3 0 % 2 ^ 8)).push
            (address.lbaIo.getD 0 0 % 2 ^ 8)
          mid := (a.task.mid.push (address.lbaIo.getD 4 0 % 2 ^ 8)).push
            (address.lbaIo.getD 1 0 % 2 ^ 8)
          high := (a.task.high.push (address.lbaIo.getD 5 0 % 2 ^ 8)).push
            (address.lbaIo.getD 2 0 % 2 ^ 8)
          device := (0xE0 ||| device.isSlaveDrive.val <<< 4 ||| address.head) % 2 ^ 8 } } := by
  rw [ataParams, if_pos hmode, hmode]
  simp only [AtaChannel.run_append]
  rw [run_register _ _ (by decide), run_register _ _ (by decide), run_register _ _ (by decide),
    run_register _ _ (by decide), run_sharedRegister _ _ (by decide) (by decide),
    run_sharedRegister _ _ (by decide) (by decide), run_sharedRegister _ _ (by decide) (by decide),
    run_sharedRegister _ _ (by decide) (by decide), run_register _ _ (by decide)]
  rfl

/-- INTERNAL: the device register has the drive, the kind of address and the head. -/
theorem deviceRegister_eq {head : ℕ} (slave : Fin 2) (hhead : head < 16) :
    ((0xA0 ||| slave.val <<< 4 ||| head) % 2 ^ 8 / 16 % 2 = slave ∧
      (0xA0 ||| slave.val <<< 4 ||| head) % 2 ^ 8 / 64 % 2 = 0 ∧
      (0xA0 ||| slave.val <<< 4 ||| head) % 2 ^ 8 % 16 = head) ∧
    (0xE0 ||| slave.val <<< 4 ||| head) % 2 ^ 8 / 16 % 2 = slave ∧
      (0xE0 ||| slave.val <<< 4 ||| head) % 2 ^ 8 / 64 % 2 = 1 ∧
      (0xE0 ||| slave.val <<< 4 ||| head) % 2 ^ 8 % 16 = head := by
  fin_cases slave <;> interval_cases head <;> decide

/-! ## Sectors -/

/-- The sectors that a drive can be asked for: all of 32 bits, if it knows their numbers or they
are beyond those of 28 bits, else those of its geometry. -/
def Addressable (device : IdeDevice) (lba : ℕ) : Prop :=
  lba < 2 ^ 32 ∧ (device.features &&& 0x200 = 0 → lba < 0x10000000 → lba < 16 * 63 * 65536)

/-- What the drives of a channel with some registers do in an operation. -/
def sectorAccesses (direction : Bool) (device : IdeDevice) (task : TaskFile) (lba : ℕ)
    (buff : List ℕ) : List SectorAccess :=
  (AtaChannel.run (ideChannels 0x02 device.channel).ioBase ⟨task, []⟩
    (ideAtaOperation direction device lba buff)).accesses

/-- INTERNAL: one command of an operation is for sectors, with the registers behind the
parameters. -/
theorem sectorAccesses_eq (direction : Bool) (device : IdeDevice) (task : TaskFile) (lba : ℕ)
    (buff : List ℕ) :
    sectorAccesses direction device task lba buff =
      (AtaChannel.run (ideChannels 0x02 device.channel).ioBase ⟨task, []⟩
        (ataParams (ideChannels 0x02 device.channel) device
          (ataAddress device.features lba))).task.execute
        (ataCommand direction (ataAddress device.features lba).lbaMode) := by
  have hcommand : ataCommand direction (ataAddress device.features lba).lbaMode % 2 ^ 8 =
      ataCommand direction (ataAddress device.features lba).lbaMode := by
    unfold ataCommand
    split_ifs <;> rfl
  have haccesses : (AtaChannel.run (ideChannels 0x02 device.channel).ioBase ⟨task, []⟩
      (ataParams (ideChannels 0x02 device.channel) device
        (ataAddress device.features lba))).accesses = [] := by
    by_cases hmode : (ataAddress device.features lba).lbaMode = 2
    · rw [run_extParams device _ _ _ hmode]
    · rw [run_params device _ _ _ hmode]
  have hcontrol : AtaChannel.run (ideChannels 0x02 device.channel).ioBase ⟨task, []⟩
      (ideWrite (ideChannels 0x02 device.channel) ataRegControl
        (ideChannels 0x02 device.channel).noInterrupt) = ⟨task, []⟩ := by
    rw [ideWrite, if_neg (by decide)]
    exact run_control _ _ _ _
  unfold sectorAccesses ideAtaOperation
  rw [AtaChannel.run_append, AtaChannel.run_append, AtaChannel.run_append, hcontrol, run_command,
    run_transfer, haccesses, hcommand, List.nil_append]

/-- INTERNAL: an extended command takes the address of 48 bits. -/
theorem execute_extended (direction : Bool) (t : TaskFile) :
    t.execute (ataCommand direction 2) =
      [⟨t.slave, direction, t.lba48, t.count.last + 2 ^ 8 * t.count.before⟩] := by
  cases direction <;> rfl

/-- INTERNAL: the other ones take that of 28 bits. -/
theorem execute_short (direction : Bool) (t : TaskFile) {lbaMode : ℕ} (hmode : lbaMode ≠ 2) :
    t.execute (ataCommand direction lbaMode) = [⟨t.slave, direction, t.lba28, t.count.last⟩] := by
  cases direction with
  | true => rw [ataCommand, if_pos rfl, if_neg hmode]; rfl
  | false => rw [ataCommand, if_neg Bool.false_ne_true, if_neg hmode]; rfl

/-- INTERNAL: a sector with a number of more than 28 bits. -/
theorem sectorAccesses_extended (direction : Bool) (device : IdeDevice) (task : TaskFile) {lba : ℕ}
    (buff : List ℕ) (hlba : lba < 2 ^ 32) (hext : 0x10000000 ≤ lba) :
    sectorAccesses direction device task lba buff = [⟨device.isSlaveDrive, direction, lba, 1⟩] := by
  have haddress : ataAddress device.features lba =
      ⟨2, [lba / 2 ^ 0 % 2 ^ 8, lba / 2 ^ 8 % 2 ^ 8, lba / 2 ^ 16 % 2 ^ 8, lba / 2 ^ 24 % 2 ^ 8,
        0, 0], 0⟩ := by
    rw [ataAddress, if_pos hext, ← and_bits, ← and_bits, ← and_bits, ← and_bits]
    rfl
  rw [sectorAccesses_eq, haddress, run_extParams _ _ _ _ rfl, execute_extended]
  obtain ⟨hslave, -, -⟩ := (deviceRegister_eq device.isSlaveDrive (by decide : 0 < 16)).2
  congr 2
  simp only [TaskFile.lba48, TwoBytes.push, List.getD_cons_zero, List.getD_cons_succ]
  omega

/-- INTERNAL: a sector that the drive knows by its number. -/
theorem sectorAccesses_number (direction : Bool) {device : IdeDevice} (task : TaskFile) {lba : ℕ}
    (buff : List ℕ) (hext : lba < 0x10000000) (hfeature : device.features &&& 0x200 ≠ 0) :
    sectorAccesses direction device task lba buff = [⟨device.isSlaveDrive, direction, lba, 1⟩] := by
  have haddress : ataAddress device.features lba =
      ⟨1, [lba / 2 ^ 0 % 2 ^ 8, lba / 2 ^ 8 % 2 ^ 8, lba / 2 ^ 16 % 2 ^ 8, 0, 0, 0],
        lba / 2 ^ 24 % 2 ^ 4⟩ := by
    rw [ataAddress, if_neg (by omega), if_pos hfeature, ← and_bits, ← and_bits, ← and_bits,
      ← and_bits]
    rfl
  have hmode : (1 : ℕ) ≠ 2 := by decide
  rw [sectorAccesses_eq, haddress, run_params _ _ _ _ hmode, execute_short _ _ hmode]
  have hhead : lba / 2 ^ 24 % 2 ^ 4 < 16 := by omega
  obtain ⟨hslave, hkind, hnibble⟩ := (deviceRegister_eq device.isSlaveDrive hhead).2
  congr 2
  simp only [TaskFile.lba28, TwoBytes.push, List.getD_cons_zero, List.getD_cons_succ,
    if_neg Nat.one_ne_zero, hkind, hnibble]
  omega

/-- INTERNAL: a sector that it knows by cylinder and head. -/
theorem sectorAccesses_geometry (direction : Bool) {device : IdeDevice} (task : TaskFile) {lba : ℕ}
    (buff : List ℕ) (hlba : lba < 16 * 63 * 65536) (hfeature : device.features &&& 0x200 = 0) :
    sectorAccesses direction device task lba buff = [⟨device.isSlaveDrive, direction, lba, 1⟩] := by
  have hsector : (lba % 63 + 1) % 2 ^ 8 = lba % 63 + 1 := by omega
  have hcylinder : (lba + 1 - (lba % 63 + 1)) / (16 * 63) % 2 ^ 16 = lba / (16 * 63) := by omega
  have hhead : (lba + 1 - (lba % 63 + 1)) % (16 * 63) / 63 % 2 ^ 8 = lba % (16 * 63) / 63 := by
    omega
  have haddress : ataAddress device.features lba =
      ⟨0, [lba % 63 + 1, lba / (16 * 63) / 2 ^ 0 % 2 ^ 8, lba / (16 * 63) / 2 ^ 8 % 2 ^ 8, 0, 0, 0],
        lba % (16 * 63) / 63⟩ := by
    rw [ataAddress, if_neg (by omega), if_neg (not_not.mpr hfeature)]
    simp only [hsector, hcylinder, hhead]
    rw [← shiftRight_and_bits, ← shiftRight_and_bits]
    rfl
  have hmode : (0 : ℕ) ≠ 2 := by decide
  rw [sectorAccesses_eq, haddress, run_params _ _ _ _ hmode, execute_short _ _ hmode]
  have hhead16 : lba % (16 * 63) / 63 < 16 := by omega
  obtain ⟨hslave, hkind, hnibble⟩ := (deviceRegister_eq device.isSlaveDrive hhead16).1
  congr 2
  simp only [TaskFile.lba28, TwoBytes.push, List.getD_cons_zero, List.getD_cons_succ, if_true,
    hkind, hnibble]
  rw [show (lba % 63 + 1) % 2 ^ 8 = lba % 63 + 1 by omega,
    show lba / (16 * 63) / 2 ^ 0 % 2 ^ 8 % 2 ^ 8 + 2 ^ 8 * (lba / (16 * 63) / 2 ^ 8 % 2 ^ 8 % 2 ^ 8) =
      lba / (16 * 63) by omega]
  exact chsSector_eq lba

/-- INTERNAL: **an operation addresses its sector**. -/
theorem sectorAccesses_addressable (direction : Bool) {device : IdeDevice} (task : TaskFile)
    {lba : ℕ} (buff : List ℕ) (hlba : Addressable device lba) :
    sectorAccesses direction device task lba buff =
      [⟨device.isSlaveDrive, direction, lba, 1⟩] := by
  by_cases hext : 0x10000000 ≤ lba
  · exact sectorAccesses_extended direction device task buff hlba.1 hext
  · by_cases hfeature : device.features &&& 0x200 = 0
    · exact sectorAccesses_geometry direction task buff (hlba.2 hfeature (by omega)) hfeature
    · exact sectorAccesses_number direction task buff (by omega) hfeature

/-- **An operation asks the drive for exactly its sector**, one of them, and so two sectors
are never taken for each other. -/
theorem ideAtaOperation_faithful (direction : Bool) (device : IdeDevice) (task : TaskFile)
    (lba : ℕ) (buff : List ℕ) (hlba : Addressable device lba) :
    sectorAccesses direction device task lba buff =
        [⟨device.isSlaveDrive, direction, lba, 1⟩] ∧
      ∀ direction' task' lba' buff', Addressable device lba' → lba' ≠ lba →
        ∀ a ∈ sectorAccesses direction device task lba buff,
          ∀ b ∈ sectorAccesses direction' device task' lba' buff', a.lba ≠ b.lba := by
  refine ⟨sectorAccesses_addressable direction task buff hlba, ?_⟩
  intro direction' task' lba' buff' hlba' hne a ha b hb
  rw [sectorAccesses_addressable direction task buff hlba, List.mem_singleton] at ha
  rw [sectorAccesses_addressable direction' task' buff' hlba', List.mem_singleton] at hb
  rw [ha, hb]
  exact fun heq => hne heq.symm

/-- INTERNAL: the last sector that has a cylinder, and the first one whose number takes more than
28 bits, on the other drive of the second channel. -/
theorem ideAtaOperation_faithful_boundaries :
    sectorAccesses false ⟨0, 0, 0⟩ ⟨⟨0, 0⟩, ⟨0, 0⟩, ⟨0, 0⟩, ⟨0, 0⟩, 0⟩ 66060287 [] =
        [⟨0, false, 66060287, 1⟩] ∧
      sectorAccesses true ⟨1, 1, 0x200⟩ ⟨⟨0, 0⟩, ⟨0, 0⟩, ⟨0, 0⟩, ⟨0, 0⟩, 0⟩ 0x10000000 [7] =
        [⟨1, true, 0x10000000, 1⟩] :=
  ⟨(ideAtaOperation_faithful false ⟨0, 0, 0⟩ _ 66060287 [] ⟨by decide, by decide⟩).1,
    (ideAtaOperation_faithful true ⟨1, 1, 0x200⟩ _ 0x10000000 [7] ⟨by decide, by decide⟩).1⟩

end LakeOS.Analysis
