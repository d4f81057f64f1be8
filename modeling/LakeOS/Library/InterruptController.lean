import Mathlib.Data.Nat.Bitwise
import Mathlib.Logic.Function.Basic

/-!
# Two interrupt controllers in cascade

Each has eight lines with priorities from 0 on.  A request that is not masked is served once no line
of the same or a higher priority is in service; the second controller is behind line 2 of the first.
-/

set_option autoImplicit false

namespace LakeOS.Library

/-- A controller: the mask is a byte, and `icw` is the initialization word that it waits for, or 0. -/
structure Pic where
  imr : ℕ
  irr : ℕ → Bool
  isr : ℕ → Bool
  offset : ℕ
  icw : ℕ

namespace Pic

/-- The end of the interrupt with the highest priority. -/
def eoi (c : Pic) : Pic :=
  match (List.range 8).find? c.isr with
  | some i => { c with isr := Function.update c.isr i false }
  | none => c

/-- A byte to the command port: initialization, or the end of an interrupt. -/
def command (c : Pic) (data : ℕ) : Pic :=
  if data.testBit 4 then
    { c with imr := 0, irr := fun _ => false, isr := fun _ => false, icw := 2 }
  else if data = 0x20 then c.eoi
  else c

/-- A byte to the data port: one of the words of the initialization, or the mask. -/
def data (c : Pic) (d : ℕ) : Pic :=
  match c.icw with
  | 2 => { c with offset := d / 8 * 8, icw := 3 }
  | 3 => { c with icw := 4 }
  | 4 => { c with icw := 0 }
  | _ => { c with imr := d }

/-- The line that is served next. -/
def candidate (c : Pic) (lines : ℕ → Bool) : Option ℕ :=
  (List.range 8).find? fun i =>
    lines i && !c.imr.testBit i && (List.range (i + 1)).all fun j => !c.isr j

/-- A line is served. -/
def serve (c : Pic) (i : ℕ) : Pic :=
  { c with irr := Function.update c.irr i false, isr := Function.update c.isr i true }

end Pic

/-- Two of them. -/
structure PicPair where
  master : Pic
  slave : Pic

namespace PicPair

/-- A device raises its line. -/
def raise (c : PicPair) (irq : ℕ) : PicPair :=
  if irq < 8 then { c with master := { c.master with irr := Function.update c.master.irr irq true } }
  else { c with slave := { c.slave with irr := Function.update c.slave.irr (irq - 8) true } }

/-- The lines of the first one. -/
def masterLines (c : PicPair) (i : ℕ) : Bool :=
  if i = 2 then (c.slave.candidate c.slave.irr).isSome else c.master.irr i

/-- The processor asks for the vector of the next interrupt. -/
def acknowledge (c : PicPair) : Option (ℕ × PicPair) :=
  match c.master.candidate c.masterLines with
  | none => none
  | some i =>
    if i = 2 then
      (c.slave.candidate c.slave.irr).map fun j =>
        (c.slave.offset + j,
          ⟨{ c.master with isr := Function.update c.master.isr 2 true }, c.slave.serve j⟩)
    else some (c.master.offset + i, { c with master := c.master.serve i })

end PicPair

/-! ## Lines that are not in service -/

namespace Pic

/-- INTERNAL: with no line in service, the first one that is not masked is next. -/
theorem candidate_idle {c : Pic} (hidle : c.isr = fun _ => false) (lines : ℕ → Bool) :
    c.candidate lines = (List.range 8).find? fun i => lines i && !c.imr.testBit i := by
  unfold candidate
  congr 1
  funext i
  rw [hidle]
  simp

/-- INTERNAL: a line in service alone ends. -/
theorem eoi_serve {c : Pic} {i : ℕ} (hi : i < 8)
    (hisr : c.isr = Function.update (fun _ => false) i true) :
    c.eoi = { c with isr := fun _ => false } := by
  have hfind : (List.range 8).find? c.isr = some i := by
    rw [hisr, List.find?_range_eq_some]
    refine ⟨Function.update_self _ _ _, List.mem_range.mpr hi, fun j hj => ?_⟩
    rw [Function.update_of_ne (by omega)]
    rfl
  unfold eoi
  rw [hfind]
  simp only [hisr, Function.update_idem]
  congr 1
  exact Function.update_eq_self i _

end Pic

end LakeOS.Library
