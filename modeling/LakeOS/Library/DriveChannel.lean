import LakeOS.Library.TaskFile

/-!
# Two drives behind one task file

A command begins a transfer, and the words of its sectors then pass through the data port one by
one.  After a command, and after each sector that it has got, the channel is busy for some reads of
its status, and while it is busy it takes nothing from any port.  A command for sectors beyond the
end of its drive begins no transfer.
-/

set_option autoImplicit false

namespace LakeOS.Library

/-- What the data port is for. -/
inductive Transfer where
  | idle
  | fromHost (slave lba left : ℕ) (words : List ℕ)
  | toHost (words : List ℕ)

/-- The words of one sector, each of 16 bits. -/
def IsSector (words : List ℕ) : Prop := words.length = 256 ∧ ∀ w ∈ words, w < 2 ^ 16

/-- The state of a channel: `delays` has how long it will be busy after the commands and sectors to
come, and `floating` is what the data port reads as when no transfer goes on. -/
structure DriveChannel where
  task : TaskFile
  capacity : ℕ → ℕ
  sectors : ℕ → ℕ → List ℕ
  transfer : Transfer
  busy : ℕ
  delays : ℕ → ℕ
  floating : ℕ

namespace DriveChannel

/-- A command has to be carried out, or a sector written. -/
def work (c : DriveChannel) : DriveChannel :=
  { c with busy := c.delays 0, delays := fun n => c.delays (n + 1) }

/-- The transfer of a command begins. -/
def start (c : DriveChannel) (a : SectorAccess) : DriveChannel :=
  if c.capacity a.slave < a.lba + a.count then { c with transfer := .idle }
  else if a.write then { c with transfer := .fromHost a.slave a.lba a.count [] }
  else
    let words := (List.range a.count).flatMap fun i => c.sectors a.slave (a.lba + i)
    { c with transfer := .toHost words }

/-- A byte is written to the register at an offset. -/
def writeRegister (c : DriveChannel) (offset data : ℕ) : DriveChannel :=
  if c.busy ≠ 0 then c
  else if offset = 7 then ((c.task.execute data).foldl start c).work
  else { c with task := c.task.write offset data }

/-- A sector of a drive gets other words. -/
def setSector (sectors : ℕ → ℕ → List ℕ) (slave lba : ℕ) (words : List ℕ) : ℕ → ℕ → List ℕ :=
  fun s l => if s = slave ∧ l = lba then words else sectors s l

/-- A word is written to the data port. -/
def writeData (c : DriveChannel) (w : ℕ) : DriveChannel :=
  if c.busy ≠ 0 then c
  else
    match c.transfer with
    | .fromHost slave lba left words =>
      if (words ++ [w]).length < 256 then
        { c with transfer := .fromHost slave lba left (words ++ [w]) }
      else
        work { c with
          sectors := setSector c.sectors slave lba (words ++ [w])
          transfer := if left ≤ 1 then .idle else .fromHost slave (lba + 1) (left - 1) [] }
    | _ => c

/-- A word is read from the data port. -/
def readData (c : DriveChannel) : ℕ × DriveChannel :=
  if c.busy ≠ 0 then (c.floating, c)
  else
    match c.transfer with
    | .toHost (w :: ws) => (w, { c with transfer := .toHost ws })
    | _ => (c.floating, c)

/-- A byte is read from the status register: busy, or ready with a data request if there is one. -/
def readStatus (c : DriveChannel) : ℕ × DriveChannel :=
  if c.busy ≠ 0 then (0x80, { c with busy := c.busy - 1 })
  else
    match c.transfer with
    | .idle => (0x50, c)
    | _ => (0x58, c)

/-! ## Sectors through the data port -/

/-- INTERNAL: the last word of a sector writes it. -/
theorem foldl_writeData {c : DriveChannel} {slave lba : ℕ} {pre ws : List ℕ} (hbusy : c.busy = 0)
    (htransfer : c.transfer = .fromHost slave lba 1 pre) (hws : ws ≠ [])
    (hlength : (pre ++ ws).length = 256) :
    ws.foldl writeData c =
      work { c with sectors := setSector c.sectors slave lba (pre ++ ws), transfer := .idle } := by
  induction ws generalizing c pre with
  | nil => exact absurd rfl hws
  | cons w ws ih =>
    rw [List.foldl_cons, writeData, if_neg (not_not.mpr hbusy), htransfer]
    dsimp only
    by_cases hlast : ws = []
    · subst hlast
      rw [if_neg (by omega)]
      rfl
    · have hpos : 0 < ws.length := List.length_pos_iff.mpr hlast
      rw [List.length_append, List.length_cons] at hlength
      rw [if_pos (by rw [List.length_append]; simp only [List.length_singleton]; omega)]
      rw [ih (c := { c with transfer := .fromHost slave lba 1 (pre ++ [w]) }) hbusy rfl hlast
        (by simp only [List.append_assoc, List.singleton_append, List.length_append,
              List.length_cons]; omega)]
      simp only [List.append_assoc, List.singleton_append]

/-- INTERNAL: words that no transfer waits for are lost. -/
theorem foldl_writeData_idle {c : DriveChannel} {ws : List ℕ} (htransfer : c.transfer = .idle) :
    ws.foldl writeData c = c := by
  have hstep : ∀ w, c.writeData w = c := by
    intro w
    rw [writeData, htransfer]
    exact ite_self c
  induction ws with
  | nil => rfl
  | cons w ws ih => rwa [List.foldl_cons, hstep]

/-- Some words are read, one after the other. -/
def readWords : ℕ → DriveChannel → List ℕ × DriveChannel
  | 0, c => ([], c)
  | n + 1, c => ((c.readData).1 :: (readWords n (c.readData).2).1, (readWords n (c.readData).2).2)

/-- INTERNAL: the words of a transfer come in their order. -/
theorem readWords_toHost {c : DriveChannel} {ws : List ℕ} (hbusy : c.busy = 0)
    (htransfer : c.transfer = .toHost ws) :
    readWords ws.length c = (ws, { c with transfer := .toHost [] }) := by
  induction ws generalizing c with
  | nil => rw [← htransfer]; rfl
  | cons w ws ih =>
    have hread : c.readData = (w, { c with transfer := .toHost ws }) := by
      rw [readData, if_neg (not_not.mpr hbusy), htransfer]
    rw [List.length_cons, readWords, hread]
    dsimp only
    rw [ih (c := { c with transfer := .toHost ws }) hbusy rfl]

/-- INTERNAL: without a transfer, nothing comes. -/
theorem readWords_idle {c : DriveChannel} (htransfer : c.transfer = .idle) (n : ℕ) :
    readWords n c = (List.replicate n c.floating, c) := by
  have hread : c.readData = (c.floating, c) := by
    rw [readData, htransfer]
    exact ite_self _
  induction n with
  | zero => rfl
  | succ n ih => rw [readWords, hread, ih, List.replicate_succ]

/-! ## One command -/

/-- INTERNAL: a command for one sector of the drive that it reads. -/
theorem start_read {c : DriveChannel} {slave lba : ℕ} (hlba : lba < c.capacity slave) :
    c.start ⟨slave, false, lba, 1⟩ = { c with transfer := .toHost (c.sectors slave lba) } := by
  rw [start, if_neg (by simp only; omega), if_neg Bool.false_ne_true]
  simp only [List.range_one, List.flatMap_cons, List.flatMap_nil, List.append_nil, Nat.add_zero]

/-- INTERNAL: a command for one sector of the drive that it writes. -/
theorem start_write {c : DriveChannel} {slave lba : ℕ} (hlba : lba < c.capacity slave) :
    c.start ⟨slave, true, lba, 1⟩ = { c with transfer := .fromHost slave lba 1 [] } := by
  rw [start, if_neg (by simp only; omega), if_pos rfl]

/-- INTERNAL: a command for a sector that the drive does not have. -/
theorem start_beyond {c : DriveChannel} {slave lba : ℕ} {write : Bool}
    (hlba : c.capacity slave ≤ lba) :
    c.start ⟨slave, write, lba, 1⟩ = { c with transfer := .idle } := by
  rw [start, if_pos (by simp only; omega)]

end DriveChannel

end LakeOS.Library
