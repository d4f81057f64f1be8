import LakeOS.Library.DriveChannel
import LakeOS.Model.AtaTransfer
import LakeOS.Analysis.AtaAddressing
import Mathlib.Logic.Function.Basic

/-!
# The drives as arrays of sectors

The ports lead to two channels of two drives each.  Reads and writes through the driver, on
whichever drives and in whichever order, do what reads and writes of separate arrays of sectors do,
however long the drives stay busy in between.
-/

set_option autoImplicit false

namespace LakeOS.Analysis

open LakeOS.Library LakeOS.Model

/-- The channel that a port belongs to, with the offset of its register. -/
def channelOf (port : ℕ) : Option (Fin 2 × ℕ) :=
  if 0x1F0 ≤ port ∧ port < 0x1F8 then some (0, port - 0x1F0)
  else if 0x170 ≤ port ∧ port < 0x178 then some (1, port - 0x170)
  else none

/-- The channels. -/
abbrev AtaHardware := Fin 2 → DriveChannel

/-- The channels behind the ports. -/
def ataPorts : Ports AtaHardware where
  write w hw :=
    match w with
    | .byte port data =>
      match channelOf port with
      | some (c, offset) => Function.update hw c ((hw c).writeRegister offset data)
      | none => hw
    | .word port data =>
      match channelOf port with
      | some (c, 0) => Function.update hw c ((hw c).writeData data)
      | _ => hw
  readByte port hw :=
    match channelOf port with
    | some (c, 7) => ((hw c).readStatus.1, Function.update hw c (hw c).readStatus.2)
    | _ => (0, hw)
  readWord port hw :=
    match channelOf port with
    | some (c, 0) => ((hw c).readData.1, Function.update hw c (hw c).readData.2)
    | _ => (0, hw)
  sleep _ hw := hw

/-! ## Ports -/

/-- INTERNAL: the eight registers of a channel. -/
theorem channelOf_register (c : Fin 2) (n : ℕ) {offset : ℕ} (hoffset : offset < 8) :
    channelOf (((ideChannels n c).ioBase + offset) % 2 ^ 16) = some (c, offset) := by
  match c with
  | 0 =>
    rw [show ((ideChannels n 0).ioBase + offset) % 2 ^ 16 = 0x1F0 + offset from
      Nat.mod_eq_of_lt (by simp only [ideChannels]; omega), channelOf, if_pos (by omega),
      Nat.add_sub_cancel_left]
  | 1 =>
    rw [show ((ideChannels n 1).ioBase + offset) % 2 ^ 16 = 0x170 + offset from
      Nat.mod_eq_of_lt (by simp only [ideChannels]; omega), channelOf, if_neg (by omega),
      if_pos (by omega), Nat.add_sub_cancel_left]

/-- INTERNAL: the first of them is the data port. -/
theorem channelOf_data (c : Fin 2) (n : ℕ) :
    channelOf ((ideChannels n c).ioBase % 2 ^ 16) = some (c, 0) :=
  channelOf_register c n (show 0 < 8 by decide)

/-- INTERNAL: a list of writes after another one. -/
theorem writes_append (xs ys : List PortWrite) (hw : AtaHardware) :
    ataPorts.writes (xs ++ ys) hw = ataPorts.writes ys (ataPorts.writes xs hw) :=
  List.foldl_append

/-- INTERNAL: the control register is behind no channel. -/
theorem writes_control (c : Fin 2) (n data : ℕ) (hw : AtaHardware) :
    ataPorts.writes (ideWritePort (ideChannels n c) ataRegControl data) hw = hw := by
  match c with
  | 0 => rfl
  | 1 => rfl

/-- INTERNAL: one byte for a register. -/
theorem writes_register (c : Fin 2) (n : ℕ) {reg : ℕ} (hreg : reg < 8) (data : ℕ)
    (hw : AtaHardware) :
    ataPorts.writes (ideWrite (ideChannels n c) reg data) hw =
      Function.update hw c ((hw c).writeRegister reg (data % 2 ^ 8)) := by
  rw [ideWrite, if_neg (by omega), ideWritePort, if_pos hreg]
  simp only [Ports.writes, ataPorts, List.foldl_cons, List.foldl_nil, channelOf_register c n hreg]

/-- INTERNAL: one byte for a register that shares its port. -/
theorem writes_sharedRegister (c : Fin 2) (n : ℕ) {reg : ℕ} (hlow : 7 < reg) (hhigh : reg < 0x0C)
    (data : ℕ) (hw : AtaHardware) :
    ataPorts.writes (ideWrite (ideChannels n c) reg data) hw =
      Function.update hw c ((hw c).writeRegister (reg - 6) (data % 2 ^ 8)) := by
  rw [ideWrite, if_pos ⟨hlow, hhigh⟩, writes_append, writes_append, writes_control, writes_control,
    ideWritePort, if_neg (by omega), if_pos hhigh,
    show (ideChannels n c).ioBase + reg - 0x06 = (ideChannels n c).ioBase + (reg - 6) by omega]
  simp only [Ports.writes, ataPorts, List.foldl_cons, List.foldl_nil,
    channelOf_register c n (show reg - 6 < 8 by omega)]

/-- INTERNAL: the words of a sector all go to the data port. -/
theorem writes_words (c : Fin 2) (n : ℕ) (ws : List ℕ) (hw : AtaHardware) :
    ataPorts.writes (ws.map fun w => .word ((ideChannels n c).ioBase % 2 ^ 16) (w % 2 ^ 16)) hw =
      Function.update hw c ((ws.map (· % 2 ^ 16)).foldl DriveChannel.writeData (hw c)) := by
  induction ws generalizing hw with
  | nil => exact (Function.update_eq_self c hw).symm
  | cons w ws ih =>
    have hstep : ataPorts.write (.word ((ideChannels n c).ioBase % 2 ^ 16) (w % 2 ^ 16)) hw =
        Function.update hw c ((hw c).writeData (w % 2 ^ 16)) := by
      simp only [ataPorts, channelOf_data]
    rw [List.map_cons, Ports.writes, List.foldl_cons, hstep]
    refine (ih _).trans ?_
    rw [Function.update_self, Function.update_idem, List.map_cons, List.foldl_cons]

/-- INTERNAL: the words of a sector all come from the data port. -/
theorem readWords_channel (c : Fin 2) (n count : ℕ) (hw : AtaHardware) :
    readWords ataPorts ((ideChannels n c).ioBase % 2 ^ 16) count hw =
      ((DriveChannel.readWords count (hw c)).1,
        Function.update hw c (DriveChannel.readWords count (hw c)).2) := by
  induction count generalizing hw with
  | zero => exact Prod.ext rfl (Function.update_eq_self c hw).symm
  | succ count ih =>
    have hstep : ataPorts.readWord ((ideChannels n c).ioBase % 2 ^ 16) hw =
        ((hw c).readData.1, Function.update hw c (hw c).readData.2) := by
      simp only [ataPorts, channelOf_data]
    simp only [readWords, hstep, ih, Function.update_self, Function.update_idem,
      DriveChannel.readWords]

/-- INTERNAL: a wait ends when the channel is not busy. -/
theorem ideAwait_eq (c : Fin 2) (n : ℕ) {fuel : ℕ} {hw : AtaHardware} (hfuel : (hw c).busy < fuel) :
    ideAwait ataPorts (ideChannels n c) fuel hw =
      some (Function.update hw c { hw c with busy := 0 }) := by
  have hread : ∀ hw : AtaHardware, ideRead ataPorts (ideChannels n c) ataRegStatus hw =
      ((hw c).readStatus.1, Function.update hw c (hw c).readStatus.2) := by
    intro hw
    have hport : ideReadPort (ideChannels n c) 7 =
        some (((ideChannels n c).ioBase + 7) % 2 ^ 16) := if_pos (by decide)
    have hshared : ¬(7 < 7 ∧ 7 < 0x0C) := by decide
    simp only [ideRead, ataRegStatus, hport, if_neg hshared, ataPorts,
      channelOf_register c n (show 7 < 8 by decide)]
  induction fuel generalizing hw with
  | zero => omega
  | succ fuel ih =>
    rw [ideAwait, hread]
    dsimp only
    by_cases hbusy : (hw c).busy = 0
    · have hready : (hw c).readStatus.1 &&& 0x80 = 0 ∧ (hw c).readStatus.2 = hw c := by
        rw [DriveChannel.readStatus, if_neg (not_not.mpr hbusy)]
        split
        · exact ⟨show (0x50 : ℕ) &&& 0x80 = 0 by decide, rfl⟩
        · exact ⟨show (0x58 : ℕ) &&& 0x80 = 0 by decide, rfl⟩
      rw [if_neg (not_not.mpr hready.1), hready.2, ← hbusy, Function.update_eq_self]
    · have hwait : (hw c).readStatus = (0x80, { hw c with busy := (hw c).busy - 1 }) := by
        rw [DriveChannel.readStatus, if_pos hbusy]
      rw [hwait, if_pos (show (0x80 : ℕ) &&& 0x80 ≠ 0 by decide), ih (by rw [Function.update_self]; dsimp only; omega),
        Function.update_self, Function.update_idem]

/-! ## Parameters -/

/-- Some writes set registers of a channel, as they do in `AtaChannel`. -/
structure Sets (c : Fin 2) (n : ℕ) (ws : List PortWrite) (f : TaskFile → TaskFile) : Prop where
  writes : ∀ hw : AtaHardware, (hw c).busy = 0 →
    ataPorts.writes ws hw = Function.update hw c { hw c with task := f (hw c).task }
  run : ∀ a : AtaChannel, a.run (ideChannels n c).ioBase ws = { a with task := f a.task }

/-- INTERNAL: first some registers, then others. -/
theorem Sets.append {c : Fin 2} {n : ℕ} {xs ys : List PortWrite} {f g : TaskFile → TaskFile}
    (hf : Sets c n xs f) (hg : Sets c n ys g) : Sets c n (xs ++ ys) (g ∘ f) := by
  refine ⟨fun hw hbusy => ?_, fun a => ?_⟩
  · rw [writes_append, hf.writes hw hbusy, hg.writes _ (by rw [Function.update_self]; exact hbusy),
      Function.update_self, Function.update_idem]
    rfl
  · rw [AtaChannel.run_append, hf.run, hg.run]
    rfl

/-- INTERNAL: a register before the command. -/
theorem sets_register (c : Fin 2) (n : ℕ) {reg : ℕ} (hreg : reg < 7) (data : ℕ) :
    Sets c n (ideWrite (ideChannels n c) reg data) fun t => t.write reg (data % 2 ^ 8) := by
  refine ⟨fun hw hbusy => ?_, run_register c n hreg data⟩
  rw [writes_register c n (by omega), DriveChannel.writeRegister, if_neg (not_not.mpr hbusy),
    if_neg (by omega)]

/-- INTERNAL: a register that shares its port. -/
theorem sets_sharedRegister (c : Fin 2) (n : ℕ) {reg : ℕ} (hlow : 7 < reg) (hhigh : reg < 0x0C)
    (data : ℕ) :
    Sets c n (ideWrite (ideChannels n c) reg data) fun t => t.write (reg - 6) (data % 2 ^ 8) := by
  refine ⟨fun hw hbusy => ?_, run_sharedRegister c n hlow hhigh data⟩
  rw [writes_sharedRegister c n hlow hhigh, DriveChannel.writeRegister,
    if_neg (not_not.mpr hbusy), if_neg (by omega)]

/-- INTERNAL: no register at all. -/
theorem sets_nil (c : Fin 2) (n : ℕ) : Sets c n [] id :=
  ⟨fun hw _ => (Function.update_eq_self c hw).symm, fun _ => rfl⟩

/-- INTERNAL: the parameters of a command only set registers. -/
theorem sets_params (device : IdeDevice) (n : ℕ) (address : AtaAddress) :
    ∃ f, Sets device.channel n (ataParams (ideChannels n device.channel) device address) f := by
  have hext : ∃ f, Sets device.channel n
      (if address.lbaMode = 2 then
        ideWrite (ideChannels n device.channel) ataRegSeccount1 0 ++
          ideWrite (ideChannels n device.channel) ataRegLba3 (address.lbaIo.getD 3 0) ++
          ideWrite (ideChannels n device.channel) ataRegLba4 (address.lbaIo.getD 4 0) ++
          ideWrite (ideChannels n device.channel) ataRegLba5 (address.lbaIo.getD 5 0)
      else []) f := by
    by_cases hmode : address.lbaMode = 2
    · rw [if_pos hmode]
      exact ⟨_, (((sets_sharedRegister _ _ (by decide) (by decide) _).append
        (sets_sharedRegister _ _ (by decide) (by decide) _)).append
        (sets_sharedRegister _ _ (by decide) (by decide) _)).append
        (sets_sharedRegister _ _ (by decide) (by decide) _)⟩
    · rw [if_neg hmode]
      exact ⟨id, sets_nil _ _⟩
  obtain ⟨f, hf⟩ := hext
  exact ⟨_, (((((sets_register _ _ (by decide) _).append hf).append
    (sets_register _ _ (by decide) _)).append (sets_register _ _ (by decide) _)).append
    (sets_register _ _ (by decide) _)).append (sets_register _ _ (by decide) _)⟩

/-! ## One operation -/

/-- Enough status reads for the waits of one operation. -/
def DriveChannel.waits (d : DriveChannel) : ℕ := max d.busy (max (d.delays 0) (d.delays 1)) + 1

/-- A channel that is ready for the words of a command. -/
def DriveChannel.begun (d : DriveChannel) (a : SectorAccess) (task : TaskFile) : DriveChannel :=
  { d.start a with task := task, busy := 0, delays := fun n => d.delays (n + 1) }

/-- INTERNAL: **an operation begins the transfer of its sector**: when the words come to pass, the
drive of the device is ready for those of that sector, if it has it. -/
theorem ideAtaTransfer_start (direction : Bool) {device : IdeDevice} {lba : ℕ} (buff : List ℕ)
    (hw : AtaHardware) (hlba : Addressable device lba) :
    ∃ task, ∀ fuel, DriveChannel.waits (hw device.channel) ≤ fuel → ∀ hw',
      hw' = Function.update hw device.channel (DriveChannel.begun (hw device.channel)
        ⟨device.isSlaveDrive, direction, lba, 1⟩ task) →
      ideAtaTransfer ataPorts direction device lba buff fuel hw =
        let regs := ideChannels 0x02 device.channel
        let mode := (ataAddress device.features lba).lbaMode
        if direction then some (buff, ataPorts.writes (ataTransfer regs true mode buff) hw')
        else
          let words := readWords ataPorts (regs.ioBase % 2 ^ 16) 256 hw'
          (idePoll ataPorts regs false fuel
            (ataPorts.writes (ataTransfer regs false mode words.1) words.2)).map
              fun s => (words.1, s.2) := by
  obtain ⟨f, hparams⟩ := sets_params device 0x02 (ataAddress device.features lba)
  have hcommand : ataCommand direction (ataAddress device.features lba).lbaMode % 2 ^ 8 =
      ataCommand direction (ataAddress device.features lba).lbaMode := by
    unfold ataCommand
    split_ifs <;> rfl
  -- the registers behind the parameters have the command address the sector
  have hexecute : (f (hw device.channel).task).execute
      (ataCommand direction (ataAddress device.features lba).lbaMode) =
        [⟨device.isSlaveDrive, direction, lba, 1⟩] := by
    rw [← sectorAccesses_addressable direction (hw device.channel).task buff hlba,
      sectorAccesses_eq, hparams.run]
  refine ⟨f (hw device.channel).task, fun fuel hfuel hw' hhw' => ?_⟩
  unfold DriveChannel.waits at hfuel
  have hcontrol : ataPorts.writes (ideWrite (ideChannels 0x02 device.channel) ataRegControl
      (ideChannels 0x02 device.channel).noInterrupt) hw = hw := by
    rw [ideWrite, if_neg (by decide)]
    exact writes_control _ _ _ _
  have hready : (idePoll ataPorts (ideChannels 0x02 device.channel) false fuel
      (ataPorts.writes (ideWrite (ideChannels 0x02 device.channel) ataRegCommand
        (ataCommand direction (ataAddress device.features lba).lbaMode))
        (ataPorts.writes (ataParams (ideChannels 0x02 device.channel) device
          (ataAddress device.features lba))
          (Function.update hw device.channel { hw device.channel with busy := 0 })))) =
      some (0, hw') := by
    rw [hparams.writes _ (by rw [Function.update_self]), Function.update_idem,
      Function.update_self, writes_register _ _ (by decide), Function.update_idem,
      Function.update_self, hcommand, DriveChannel.writeRegister, if_neg (not_not.mpr rfl),
      if_pos rfl, hexecute, idePoll]
    have hbusy : ∀ d : DriveChannel, (d.start ⟨device.isSlaveDrive, direction, lba, 1⟩).delays =
        d.delays := by
      intro d
      unfold DriveChannel.start
      split_ifs <;> rfl
    rw [ideAwait_eq _ _ (by
      simp only [ataPorts, Function.update_self, List.foldl_cons, List.foldl_nil,
        DriveChannel.work, hbusy]
      omega)]
    subst hhw'
    simp only [ataPorts, Function.update_self, Function.update_idem, List.foldl_cons,
      List.foldl_nil, DriveChannel.work, hbusy, Option.map_some, if_neg Bool.false_ne_true]
    unfold DriveChannel.begun DriveChannel.start
    split_ifs <;> rfl
  rw [ideAtaTransfer]
  dsimp only
  rw [hcontrol, ideAwait_eq _ _ (by omega), Option.bind_some, hready, Option.bind_some]

/-- What the drive has in a sector, as a read gets it. -/
def DriveChannel.fetched (d : DriveChannel) (slave lba : ℕ) : List ℕ :=
  if lba < d.capacity slave then d.sectors slave lba else List.replicate 256 d.floating

/-- The sectors of the drives behind a write. -/
def DriveChannel.stored (d : DriveChannel) (slave lba : ℕ) (words : List ℕ) : ℕ → ℕ → List ℕ :=
  if lba < d.capacity slave then DriveChannel.setSector d.sectors slave lba words else d.sectors

/-- INTERNAL: they are sectors still. -/
theorem isSector_stored {d : DriveChannel} {slave lba : ℕ} {words : List ℕ} (hwords : IsSector words)
    (s l : ℕ) (hsector : IsSector (d.sectors s l)) :
    IsSector (DriveChannel.stored d slave lba words s l) := by
  by_cases hhas : lba < d.capacity slave
  · rw [DriveChannel.stored, if_pos hhas]
    by_cases hsame : s = slave ∧ l = lba
    · rwa [DriveChannel.setSector, if_pos hsame]
    · rwa [DriveChannel.setSector, if_neg hsame]
  · rwa [DriveChannel.stored, if_neg hhas]

/-- A channel with the same drives, whose sectors are now `sectors`. -/
structure SameDrives (d d' : DriveChannel) (sectors : ℕ → ℕ → List ℕ) : Prop where
  capacity : d'.capacity = d.capacity
  floating : d'.floating = d.floating
  sectors : d'.sectors = sectors

/-- INTERNAL: **a write stores the sector**, and nothing if the drive does not have it. -/
theorem ideAtaTransfer_write {device : IdeDevice} {lba : ℕ} {buff : List ℕ} (hw : AtaHardware)
    (hlba : Addressable device lba) (hbuff : IsSector buff) :
    ∃ d, (∀ fuel, DriveChannel.waits (hw device.channel) ≤ fuel →
        ideAtaTransfer ataPorts true device lba buff fuel hw =
          some (buff, Function.update hw device.channel d)) ∧
      SameDrives (hw device.channel) d
        (DriveChannel.stored (hw device.channel) device.isSlaveDrive lba buff) := by
  obtain ⟨task, hstart⟩ := ideAtaTransfer_start true buff hw hlba
  have hwords : (buff.take 256).map (· % 2 ^ 16) = buff := by
    rw [List.take_of_length_le hbuff.1.le]
    exact (List.map_congr_left fun w hw => Nat.mod_eq_of_lt (hbuff.2 w hw)).trans (List.map_id buff)
  have hlength : ([] ++ buff).length = 256 := hbuff.1
  have hne : buff ≠ [] := List.ne_nil_of_length_pos (by rw [hbuff.1]; decide)
  refine ⟨buff.foldl DriveChannel.writeData (DriveChannel.begun (hw device.channel)
    ⟨device.isSlaveDrive, true, lba, 1⟩ task), fun fuel hfuel => ?_, ?_⟩
  · rw [hstart fuel hfuel _ rfl, if_pos rfl, ataTransfer, if_pos rfl, writes_words, hwords,
      Function.update_self, Function.update_idem]
  · by_cases hhas : lba < (hw device.channel).capacity device.isSlaveDrive
    · rw [DriveChannel.begun, DriveChannel.start_write hhas,
        DriveChannel.foldl_writeData rfl (by rfl) hne hlength, DriveChannel.stored, if_pos hhas]
      exact ⟨rfl, rfl, rfl⟩
    · rw [DriveChannel.begun, DriveChannel.start_beyond (Nat.not_lt.mp hhas),
        DriveChannel.foldl_writeData_idle rfl, DriveChannel.stored, if_neg hhas]
      exact ⟨rfl, rfl, rfl⟩

/-- INTERNAL: behind a read, the cache is flushed, which leaves the sectors alone. -/
theorem flush_eq (device : IdeDevice) (mode : ℕ) (buff : List ℕ) {fuel : ℕ} {hw : AtaHardware}
    (hbusy : (hw device.channel).busy = 0) (hfuel : (hw device.channel).delays 0 < fuel) :
    idePoll ataPorts (ideChannels 0x02 device.channel) false fuel
        (ataPorts.writes (ataTransfer (ideChannels 0x02 device.channel) false mode buff) hw) =
      some (0, Function.update hw device.channel
        { hw device.channel with delays := fun n => (hw device.channel).delays (n + 1) }) := by
  have hexecute : (hw device.channel).task.execute
      ((if mode = 2 then 0xEA else 0xE7) % 2 ^ 8) = [] := by
    by_cases hmode : mode = 2
    · rw [if_pos hmode]; rfl
    · rw [if_neg hmode]; rfl
  rw [ataTransfer, if_neg Bool.false_ne_true, writes_register _ _ (by decide),
    DriveChannel.writeRegister, if_neg (not_not.mpr hbusy), if_pos rfl, hexecute, idePoll,
    ideAwait_eq _ _ (by
      simp only [ataPorts, Function.update_self, List.foldl_nil, DriveChannel.work]
      exact hfuel)]
  simp only [ataPorts, Function.update_self, Function.update_idem, List.foldl_nil,
    DriveChannel.work, Option.map_some, if_neg Bool.false_ne_true, ← hbusy]

/-- INTERNAL: **a read gets the sector**, and leaves all of them as they are. -/
theorem ideAtaTransfer_read {device : IdeDevice} {lba : ℕ} (buff : List ℕ) (hw : AtaHardware)
    (hlba : Addressable device lba)
    (hsector : IsSector ((hw device.channel).sectors device.isSlaveDrive lba)) :
    ∃ d, (∀ fuel, DriveChannel.waits (hw device.channel) ≤ fuel →
        ideAtaTransfer ataPorts false device lba buff fuel hw =
          some (DriveChannel.fetched (hw device.channel) device.isSlaveDrive lba,
            Function.update hw device.channel d)) ∧
      SameDrives (hw device.channel) d (hw device.channel).sectors := by
  obtain ⟨task, hstart⟩ := ideAtaTransfer_start false buff hw hlba
  -- the words that come, and the channel behind them
  have hread : ∃ transfer, DriveChannel.readWords 256 (DriveChannel.begun (hw device.channel)
      ⟨device.isSlaveDrive, false, lba, 1⟩ task) =
      (DriveChannel.fetched (hw device.channel) device.isSlaveDrive lba,
        { hw device.channel with
          task := task
          transfer := transfer
          busy := 0
          delays := fun n => (hw device.channel).delays (n + 1) }) := by
    by_cases hhas : lba < (hw device.channel).capacity device.isSlaveDrive
    · rw [DriveChannel.begun, DriveChannel.start_read hhas, DriveChannel.fetched, if_pos hhas,
        ← hsector.1]
      exact ⟨_, DriveChannel.readWords_toHost rfl rfl⟩
    · rw [DriveChannel.begun, DriveChannel.start_beyond (Nat.not_lt.mp hhas),
        DriveChannel.fetched, if_neg hhas]
      exact ⟨_, DriveChannel.readWords_idle rfl 256⟩
  obtain ⟨transfer, hread⟩ := hread
  refine ⟨{ hw device.channel with
    task := task
    transfer := transfer
    busy := 0
    delays := fun n => (hw device.channel).delays (n + 2) }, fun fuel hfuel => ?_, rfl, rfl, rfl⟩
  rw [hstart fuel hfuel _ rfl, if_neg Bool.false_ne_true, readWords_channel, Function.update_self,
    Function.update_idem, hread]
  unfold DriveChannel.waits at hfuel
  dsimp only
  rw [flush_eq _ _ _ (by rw [Function.update_self]) (by
      rw [Function.update_self]
      simp only [Nat.zero_add]
      omega), Function.update_self, Function.update_idem]
  rfl

/-! ## Runs -/

/-- A call of the driver. -/
inductive AtaCall where
  | read (drive lba : ℕ) (buff : List ℕ)
  | write (drive lba : ℕ) (buff : List ℕ)

/-- The sector that is written is one, in words of 16 bits. -/
def AtaCall.Valid : AtaCall → Prop
  | .read _ _ _ => True
  | .write _ _ buff => IsSector buff

/-- The call, with its code and the buffer behind it. -/
def AtaCall.run (devices : ℕ → AtaDevice) (fuel : ℕ) (hw : AtaHardware) :
    AtaCall → Option ((ℕ × List ℕ) × AtaHardware)
  | .read drive lba buff => ideAtaReadSector ataPorts devices drive lba buff fuel hw
  | .write drive lba buff => ideAtaWriteSector ataPorts devices drive lba buff fuel hw

/-- The calls, one after the other. -/
def ataRun (devices : ℕ → AtaDevice) (fuel : ℕ) :
    List AtaCall → AtaHardware → Option (List (ℕ × List ℕ) × AtaHardware)
  | [], hw => some ([], hw)
  | call :: calls, hw =>
    (call.run devices fuel hw).bind fun (answer, hw) =>
      (ataRun devices fuel calls hw).map fun (answers, hw) => (answer :: answers, hw)

/-- Arrays of sectors, one for each drive. -/
abbrev Disks := ℕ → ℕ → List ℕ

/-- The call on the arrays.  Beyond the end of its drive it is refused with 1, for the sector at the
end it is accepted but moves nothing, and `floating` is read. -/
def AtaCall.onDisks (devices : ℕ → AtaDevice) (floating : ℕ) (disks : Disks) :
    AtaCall → (ℕ × List ℕ) × Disks
  | .read drive lba buff =>
    if 3 < drive ∨ ¬(devices drive).exists' ∨ (devices drive).size < lba then ((1, buff), disks)
    else if lba < (devices drive).size then ((0, disks drive lba), disks)
    else ((0, List.replicate 256 floating), disks)
  | .write drive lba buff =>
    if 3 < drive ∨ ¬(devices drive).exists' ∨ (devices drive).size < lba then ((1, buff), disks)
    else if lba < (devices drive).size then
      ((0, buff), fun d l => if d = drive ∧ l = lba then buff else disks d l)
    else ((0, buff), disks)

/-- The calls on the arrays. -/
def diskRun (devices : ℕ → AtaDevice) (floating : ℕ) :
    List AtaCall → Disks → List (ℕ × List ℕ) × Disks
  | [], disks => ([], disks)
  | call :: calls, disks =>
    let first := call.onDisks devices floating disks
    let rest := diskRun devices floating calls first.2
    (first.1 :: rest.1, rest.2)

/-- The drives that the driver knows are attached, no two of them at one place, with the sizes that
it has for them. -/
structure Attached (devices : ℕ → AtaDevice) (floating : ℕ) (hw : AtaHardware) : Prop where
  size : ∀ drive ≤ 3, (devices drive).exists' →
    (hw (devices drive).channel).capacity (devices drive).isSlaveDrive = (devices drive).size
  addressable : ∀ drive ≤ 3, (devices drive).exists' → ∀ lba ≤ (devices drive).size,
    Addressable (devices drive).toIdeDevice lba
  place : ∀ drive ≤ 3, ∀ drive' ≤ 3, (devices drive).exists' → (devices drive').exists' →
    (devices drive).channel = (devices drive').channel →
    (devices drive).isSlaveDrive = (devices drive').isSlaveDrive → drive = drive'
  sectors : ∀ drive ≤ 3, (devices drive).exists' → ∀ lba,
    IsSector ((hw (devices drive).channel).sectors (devices drive).isSlaveDrive lba)
  floats : ∀ c, (hw c).floating = floating

/-- The sectors of the drives that the driver knows. -/
def disksOf (devices : ℕ → AtaDevice) (hw : AtaHardware) : Disks := fun drive lba =>
  if drive ≤ 3 ∧ (devices drive).exists' then
    (hw (devices drive).channel).sectors (devices drive).isSlaveDrive lba
  else []

section

variable {devices : ℕ → AtaDevice} {floating : ℕ} {hw : AtaHardware}

/-- INTERNAL: a channel changes, but not its drives. -/
theorem Attached.sameDrives (hatt : Attached devices floating hw) {c : Fin 2} {d : DriveChannel}
    {sectors : ℕ → ℕ → List ℕ} (hsame : SameDrives (hw c) d sectors)
    (hsectors : ∀ slave lba, IsSector ((hw c).sectors slave lba) → IsSector (sectors slave lba)) :
    Attached devices floating (Function.update hw c d) := by
  refine ⟨fun drive hle hexists => ?_, hatt.addressable, hatt.place, fun drive hle hexists lba => ?_,
    fun c' => ?_⟩
  · by_cases hc : (devices drive).channel = c
    · have hsize := hatt.size drive hle hexists
      rw [hc] at hsize ⊢
      rw [Function.update_self, hsame.capacity, hsize]
    · rw [Function.update_of_ne hc]
      exact hatt.size drive hle hexists
  · by_cases hc : (devices drive).channel = c
    · have hsector := hatt.sectors drive hle hexists lba
      rw [hc] at hsector ⊢
      rw [Function.update_self, hsame.sectors]
      exact hsectors _ _ hsector
    · rw [Function.update_of_ne hc]
      exact hatt.sectors drive hle hexists lba
  · by_cases hc : c' = c
    · subst hc
      rw [Function.update_self, hsame.floating, hatt.floats]
    · rw [Function.update_of_ne hc, hatt.floats]

/-- INTERNAL: the drives have the same sectors. -/
theorem disksOf_sameDrives {c : Fin 2} {d : DriveChannel} (hsame : SameDrives (hw c) d (hw c).sectors) :
    disksOf devices (Function.update hw c d) = disksOf devices hw := by
  funext drive lba
  unfold disksOf
  by_cases hc : (devices drive).channel = c
  · rw [hc, Function.update_self, hsame.sectors]
  · rw [Function.update_of_ne hc]

/-- INTERNAL: one drive has another sector. -/
theorem disksOf_setSector (hatt : Attached devices floating hw) {drive lba : ℕ} {buff : List ℕ}
    {d : DriveChannel} (hle : drive ≤ 3) (hexists : (devices drive).exists')
    (hsame : SameDrives (hw (devices drive).channel) d
      (DriveChannel.setSector (hw (devices drive).channel).sectors (devices drive).isSlaveDrive lba
        buff)) :
    disksOf devices (Function.update hw (devices drive).channel d) =
      fun d l => if d = drive ∧ l = lba then buff else disksOf devices hw d l := by
  funext drive' l
  unfold disksOf
  by_cases hknown : drive' ≤ 3 ∧ (devices drive').exists'
  · rw [if_pos hknown, if_pos hknown]
    by_cases hc : (devices drive').channel = (devices drive).channel
    · rw [hc, Function.update_self, hsame.sectors, DriveChannel.setSector]
      by_cases hs : (devices drive').isSlaveDrive = (devices drive).isSlaveDrive
      · have hdrive := hatt.place drive' hknown.1 drive hle hknown.2 hexists hc hs
        subst hdrive
        simp only [true_and]
      · have hdrive : drive' ≠ drive := fun heq => hs (by rw [heq])
        rw [if_neg (fun h => hs (Fin.ext h.1)), if_neg (fun h => hdrive h.1)]
    · have hdrive : drive' ≠ drive := fun heq => hc (by rw [heq])
      rw [Function.update_of_ne hc, if_neg (fun h => hdrive h.1)]
  · have hdrive : drive' ≠ drive := fun heq => hknown (heq ▸ ⟨hle, hexists⟩)
    rw [if_neg hknown, if_neg hknown, if_neg (fun h => hdrive h.1)]

/-- INTERNAL: **one call** of the driver is the call on the arrays. -/
theorem AtaCall.run_onDisks (hatt : Attached devices floating hw) (call : AtaCall)
    (hcall : call.Valid) :
    ∃ bound hw', (∀ fuel, bound ≤ fuel → call.run devices fuel hw =
        some ((call.onDisks devices floating (disksOf devices hw)).1, hw')) ∧
      disksOf devices hw' = (call.onDisks devices floating (disksOf devices hw)).2 ∧
      Attached devices floating hw' := by
  cases call with
  | read drive lba buff =>
    simp only [AtaCall.run, AtaCall.onDisks, ideAtaReadSector]
    by_cases hdrive : 3 < drive ∨ ¬(devices drive).exists'
    · rw [if_pos (or_assoc.mp (Or.inl hdrive))]
      exact ⟨0, hw, fun fuel _ => if_pos hdrive, rfl, hatt⟩
    by_cases hsize : (devices drive).size < lba
    · rw [if_pos (or_assoc.mp (Or.inr hsize))]
      exact ⟨0, hw, fun fuel _ => by rw [if_neg hdrive, if_pos hsize], rfl, hatt⟩
    have hknown : ¬(3 < drive ∨ ¬(devices drive).exists' ∨ (devices drive).size < lba) :=
      fun h => (or_assoc.mpr h).elim hdrive hsize
    have hle : drive ≤ 3 := not_lt.mp fun h => hdrive (Or.inl h)
    have hexists : (devices drive).exists' := not_not.mp fun h => hdrive (Or.inr h)
    obtain ⟨d, hread, hsame⟩ := ideAtaTransfer_read buff hw
      (hatt.addressable drive hle hexists lba (by omega)) (hatt.sectors drive hle hexists lba)
    refine ⟨DriveChannel.waits (hw (devices drive).channel),
      Function.update hw (devices drive).channel d, fun fuel hfuel => ?_, ?_,
      hatt.sameDrives hsame fun _ _ h => h⟩
    · have hdisk : disksOf devices hw drive lba =
          (hw (devices drive).channel).sectors (devices drive).isSlaveDrive lba :=
        if_pos ⟨hle, hexists⟩
      rw [if_neg hdrive, if_neg hsize, hread fuel hfuel, if_neg hknown, DriveChannel.fetched,
        hatt.size drive hle hexists, hatt.floats, hdisk]
      by_cases hlba : lba < (devices drive).size
      · rw [if_pos hlba, if_pos hlba]
        rfl
      · rw [if_neg hlba, if_neg hlba]
        rfl
    · rw [disksOf_sameDrives hsame, if_neg hknown]
      split_ifs <;> rfl
  | write drive lba buff =>
    simp only [AtaCall.run, AtaCall.onDisks, ideAtaWriteSector]
    by_cases hdrive : 3 < drive ∨ ¬(devices drive).exists'
    · rw [if_pos (or_assoc.mp (Or.inl hdrive))]
      exact ⟨0, hw, fun fuel _ => if_pos hdrive, rfl, hatt⟩
    by_cases hsize : (devices drive).size < lba
    · rw [if_pos (or_assoc.mp (Or.inr hsize))]
      exact ⟨0, hw, fun fuel _ => by rw [if_neg hdrive, if_pos hsize], rfl, hatt⟩
    have hknown : ¬(3 < drive ∨ ¬(devices drive).exists' ∨ (devices drive).size < lba) :=
      fun h => (or_assoc.mpr h).elim hdrive hsize
    have hle : drive ≤ 3 := not_lt.mp fun h => hdrive (Or.inl h)
    have hexists : (devices drive).exists' := not_not.mp fun h => hdrive (Or.inr h)
    obtain ⟨d, hwrite, hsame⟩ := ideAtaTransfer_write hw
      (hatt.addressable drive hle hexists lba (by omega)) hcall
    refine ⟨DriveChannel.waits (hw (devices drive).channel),
      Function.update hw (devices drive).channel d, fun fuel hfuel => ?_, ?_,
      hatt.sameDrives hsame (isSector_stored hcall)⟩
    · rw [if_neg hdrive, if_neg hsize, hwrite fuel hfuel, if_neg hknown]
      split_ifs <;> rfl
    · rw [if_neg hknown]
      rw [DriveChannel.stored, hatt.size drive hle hexists] at hsame
      by_cases hlba : lba < (devices drive).size
      · rw [if_pos hlba] at hsame ⊢
        exact disksOf_setSector hatt hle hexists hsame
      · rw [if_neg hlba] at hsame ⊢
        exact disksOf_sameDrives hsame

end

/-- **The driver is an array of sectors for each drive**: any reads and writes, on any drives, end
with the answers of the arrays and leave the drives with their contents, as soon as the waits may
take long enough. -/
theorem ataRun_refines {devices : ℕ → AtaDevice} {floating : ℕ} {hw : AtaHardware}
    (hatt : Attached devices floating hw) (calls : List AtaCall)
    (hcalls : ∀ call ∈ calls, call.Valid) :
    ∃ bound hw', (∀ fuel, bound ≤ fuel → ataRun devices fuel calls hw =
        some ((diskRun devices floating calls (disksOf devices hw)).1, hw')) ∧
      disksOf devices hw' = (diskRun devices floating calls (disksOf devices hw)).2 ∧
      Attached devices floating hw' := by
  induction calls generalizing hw with
  | nil => exact ⟨0, hw, fun _ _ => rfl, rfl, hatt⟩
  | cons call calls ih =>
    obtain ⟨first, hw₁, hrun, hdisks, hatt₁⟩ :=
      call.run_onDisks hatt (hcalls call List.mem_cons_self)
    obtain ⟨rest, hw₂, hruns, hdisks₂, hatt₂⟩ :=
      ih hatt₁ fun c hc => hcalls c (List.mem_cons_of_mem _ hc)
    rw [hdisks] at hruns hdisks₂
    refine ⟨max first rest, hw₂, fun fuel hfuel => ?_, hdisks₂, hatt₂⟩
    rw [ataRun, hrun fuel (le_trans (le_max_left _ _) hfuel), Option.bind_some]
    dsimp only
    rw [hruns fuel (le_trans (le_max_right _ _) hfuel)]
    rfl

/-- Two drives of eight sectors on the first channel. -/
def twoDrives (drive : ℕ) : AtaDevice :=
  match drive with
  | 0 => ⟨⟨0, 0, 0x200⟩, true, 8⟩
  | 1 => ⟨⟨0, 1, 0x200⟩, true, 8⟩
  | _ => ⟨⟨0, 0, 0⟩, false, 0⟩

/-- The drives are empty, and stay busy longer each time. -/
def emptyDrives : AtaHardware := fun _ =>
  { task := ⟨⟨0, 0⟩, ⟨0, 0⟩, ⟨0, 0⟩, ⟨0, 0⟩, 0⟩
    capacity := fun _ => 8
    sectors := fun _ _ => List.replicate 256 0
    transfer := .idle
    busy := 5
    delays := fun n => n
    floating := 0xFFFF }

/-- INTERNAL: they are attached. -/
theorem attached_twoDrives : Attached twoDrives 0xFFFF emptyDrives where
  size drive _ hexists := by
    match drive with
    | 0 => rfl
    | 1 => rfl
    | _ + 2 => exact absurd hexists Bool.false_ne_true
  addressable drive _ hexists lba hlba := by
    match drive with
    | 0 => exact ⟨Nat.lt_of_le_of_lt hlba (by decide), fun h => absurd h (by decide)⟩
    | 1 => exact ⟨Nat.lt_of_le_of_lt hlba (by decide), fun h => absurd h (by decide)⟩
    | _ + 2 => exact absurd hexists Bool.false_ne_true
  place drive _ drive' _ hexists hexists' _ hslave := by
    match drive, drive' with
    | 0, 0 => rfl
    | 1, 1 => rfl
    | 0, 1 => exact absurd hslave (by decide)
    | 1, 0 => exact absurd hslave (by decide)
    | _ + 2, _ => exact absurd hexists Bool.false_ne_true
    | _, _ + 2 => exact absurd hexists' Bool.false_ne_true
  sectors _ _ _ _ :=
    ⟨List.length_replicate, fun w hw => (List.eq_of_mem_replicate hw).trans_lt (by decide)⟩
  floats _ := rfl

/-- INTERNAL: a sector is written on one of the drives, and read back from both; the drive has no
ninth sector, and the driver refuses a tenth. -/
theorem ataRun_refines_twoDrives :
    ∃ bound hw', ∀ fuel, bound ≤ fuel →
      ataRun twoDrives fuel [.write 1 3 (List.replicate 256 7), .read 1 3 [], .read 0 3 [],
        .read 0 8 [], .read 0 9 []] emptyDrives =
      some ([(0, List.replicate 256 7), (0, List.replicate 256 7), (0, List.replicate 256 0),
        (0, List.replicate 256 0xFFFF), (1, [])], hw') := by
  obtain ⟨bound, hw', hrun, -, -⟩ := ataRun_refines attached_twoDrives
    [.write 1 3 (List.replicate 256 7), .read 1 3 [], .read 0 3 [], .read 0 8 [], .read 0 9 []]
    (by
      intro call hcall
      simp only [List.mem_cons, List.not_mem_nil, or_false] at hcall
      rcases hcall with rfl | rfl | rfl | rfl | rfl
      · exact ⟨List.length_replicate, fun w hw => (List.eq_of_mem_replicate hw).trans_lt (by decide)⟩
      all_goals trivial)
  exact ⟨bound, hw', hrun⟩

end LakeOS.Analysis
