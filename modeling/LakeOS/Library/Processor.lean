import LakeOS.Library.Word32
import Mathlib.Logic.Function.Basic

/-!
# A processor with a stack

Registers, segments and memory in words, with the instructions that move them to a stack and back,
the interrupt that saves the place of a program and `iret`, which goes back there.  The stack grows
down from a fixed `top`; `Stack p ws top` has the words that lie on it.
-/

set_option autoImplicit false

namespace LakeOS.Library

/-- A general register. -/
inductive Reg where
  | eax | ecx | edx | ebx | esp | ebp | esi | edi
deriving DecidableEq

/-- A segment register. -/
inductive Seg where
  | cs | ds | es | fs | gs | ss
deriving DecidableEq

/-- The memory has a word at each address. -/
@[ext] structure Processor where
  reg : Reg → ℕ
  seg : Seg → ℕ
  eip : ℕ
  eflags : ℕ
  mem : ℕ → ℕ

/-- The instructions. -/
inductive Instr where
  | pushImm (w : ℕ)
  | push (r : Reg)
  | pop (r : Reg)
  | pusha
  | popa
  | clear (r : Reg)
  | movLow (r : Reg) (w : ℕ)
  | movFromSeg (r : Reg) (s : Seg)
  | movToSeg (s : Seg) (r : Reg)
  | addEsp (n : ℕ)
  | movEspArg (n : ℕ)
  | call
  | iret

/-- What is called, and what arithmetic makes of the flags. -/
structure Surroundings where
  callee : Processor → Processor
  flags : ℕ → ℕ

namespace Processor

/-- A register gets a value. -/
def setReg (r : Reg) (w : ℕ) (p : Processor) : Processor :=
  { p with reg := Function.update p.reg r w }

/-- A segment register gets a value. -/
def setSeg (s : Seg) (w : ℕ) (p : Processor) : Processor :=
  { p with seg := Function.update p.seg s w }

@[simp] theorem setReg_self (p : Processor) (r : Reg) (w : ℕ) : (p.setReg r w).reg r = w := by
  simp only [setReg, Function.update_self]

@[simp] theorem setReg_other (p : Processor) {r r' : Reg} (hr : r' ≠ r) (w : ℕ) :
    (p.setReg r w).reg r' = p.reg r' := by
  simp only [setReg, Function.update_of_ne hr]

@[simp] theorem setSeg_self (p : Processor) (s : Seg) (w : ℕ) : (p.setSeg s w).seg s = w := by
  simp only [setSeg, Function.update_self]

@[simp] theorem setSeg_other (p : Processor) {s s' : Seg} (hs : s' ≠ s) (w : ℕ) :
    (p.setSeg s w).seg s' = p.seg s' := by
  simp only [setSeg, Function.update_of_ne hs]

@[simp] theorem setReg_seg (p : Processor) (r : Reg) (w : ℕ) : (p.setReg r w).seg = p.seg := rfl

@[simp] theorem setSeg_reg (p : Processor) (s : Seg) (w : ℕ) : (p.setSeg s w).reg = p.reg := rfl

/-- The low half of a register gets a value. -/
def setLow (r : Reg) (w : ℕ) (p : Processor) : Processor :=
  p.setReg r (p.reg r / 2 ^ 16 * 2 ^ 16 + w % 2 ^ 16)

@[simp] theorem setReg_mem (p : Processor) (r : Reg) (w : ℕ) : (p.setReg r w).mem = p.mem := rfl

@[simp] theorem setSeg_mem (p : Processor) (s : Seg) (w : ℕ) : (p.setSeg s w).mem = p.mem := rfl

@[simp] theorem setLow_mem (p : Processor) (r : Reg) (w : ℕ) : (p.setLow r w).mem = p.mem := rfl

/-- A word is pushed. -/
def pushWord (w : ℕ) (p : Processor) : Processor :=
  let esp := sub32 (p.reg .esp) 4
  { p.setReg .esp esp with mem := Function.update p.mem esp w }

/-- The word on the top, and the processor without it. -/
def popWord (p : Processor) : ℕ × Processor :=
  (p.mem (p.reg .esp), p.setReg .esp (add32 (p.reg .esp) 4))

/-- A word is popped into a register. -/
def popReg (r : Reg) (p : Processor) : Processor := (popWord p).2.setReg r (popWord p).1

/-- Back to an interrupted program, and to its stack if it was less privileged. -/
def iret (p : Processor) : Processor :=
  let (eip, p) := popWord p
  let (cs, p) := popWord p
  let (eflags, p) := popWord p
  let privilege := p.seg .cs % 4
  let p := { p.setSeg .cs (cs % 2 ^ 16) with eip := eip, eflags := eflags }
  if privilege < cs % 4 then
    let (esp, p) := popWord p
    let (ss, p) := popWord p
    (p.setReg .esp esp).setSeg .ss (ss % 2 ^ 16)
  else p

/-- One instruction. -/
def exec (env : Surroundings) (i : Instr) (p : Processor) : Processor :=
  match i with
  | .pushImm w => p.pushWord w
  | .push r => p.pushWord (p.reg r)
  | .pop r => p.popReg r
  | .pusha =>
    let esp := p.reg .esp
    let p := (((p.pushWord (p.reg .eax)).pushWord (p.reg .ecx)).pushWord (p.reg .edx)).pushWord
      (p.reg .ebx)
    (((p.pushWord esp).pushWord (p.reg .ebp)).pushWord (p.reg .esi)).pushWord (p.reg .edi)
  | .popa =>
    let p := ((p.popReg .edi).popReg .esi).popReg .ebp
    (((p.popWord.2.popReg .ebx).popReg .edx).popReg .ecx).popReg .eax
  | .clear r => { p.setReg r 0 with eflags := env.flags p.eflags }
  | .movLow r w => p.setLow r w
  | .movFromSeg r s => p.setLow r (p.seg s)
  | .movToSeg s r => p.setSeg s (p.reg r % 2 ^ 16)
  | .addEsp n => { p.setReg .esp (add32 (p.reg .esp) n) with eflags := env.flags p.eflags }
  | .movEspArg n => p.setReg .esp (p.mem (add32 (p.reg .esp) n))
  | .call => env.callee p
  | .iret => p.iret

/-- The instructions, one after the other. -/
def run (env : Surroundings) (is : List Instr) (p : Processor) : Processor :=
  is.foldl (fun p i => exec env i p) p

/-- Where a gate leads. -/
structure Gate where
  cs : ℕ
  eip : ℕ

/-- An interrupt: a less privileged program leaves its stack for the one at `ss0` and `esp0`. -/
def interrupt (ss0 esp0 : ℕ) (gate : Gate) (error : Option ℕ) (p : Processor) : Processor :=
  let q := if gate.cs % 4 < p.seg .cs % 4 then
      (((p.setReg .esp esp0).setSeg .ss ss0).pushWord (p.seg .ss)).pushWord (p.reg .esp)
    else p
  let q := ((q.pushWord p.eflags).pushWord (p.seg .cs)).pushWord p.eip
  let q := match error with
    | some e => q.pushWord e
    | none => q
  { q.setSeg .cs gate.cs with eip := gate.eip, eflags := p.eflags - p.eflags / 2 ^ 9 % 2 * 2 ^ 9 }

end Processor

/-! ## The stack -/

/-- Words of the memory, from an address on. -/
def WordsAt (mem : ℕ → ℕ) : ℕ → List ℕ → Prop
  | _, [] => True
  | a, w :: ws => mem a = w ∧ WordsAt mem (a + 4) ws

/-- INTERNAL: a word below them does not matter. -/
theorem WordsAt.update {mem : ℕ → ℕ} {a b w : ℕ} {ws : List ℕ} (hbelow : b < a)
    (hwords : WordsAt mem a ws) : WordsAt (Function.update mem b w) a ws := by
  induction ws generalizing a with
  | nil => trivial
  | cons x ws ih =>
    refine ⟨?_, ih (by omega) hwords.2⟩
    rw [Function.update_of_ne (by omega)]
    exact hwords.1

/-- INTERNAL: they are where the memory is the same. -/
theorem WordsAt.congr {mem mem' : ℕ → ℕ} {a : ℕ} {ws : List ℕ}
    (hmem : ∀ x, a ≤ x → x < a + 4 * ws.length → mem' x = mem x) (hwords : WordsAt mem a ws) :
    WordsAt mem' a ws := by
  induction ws generalizing a with
  | nil => trivial
  | cons w ws ih =>
    rw [List.length_cons] at hmem
    refine ⟨(hmem a (Nat.le_refl a) (by omega)).trans hwords.1, ih (fun x hlow hhigh => ?_) hwords.2⟩
    exact hmem x (by omega) (by omega)

/-- Words are stored. -/
def storeWords (mem : ℕ → ℕ) : ℕ → List ℕ → ℕ → ℕ
  | _, [] => mem
  | a, w :: ws => storeWords (Function.update mem a w) (a + 4) ws

/-- INTERNAL: the rest of the memory stays as it is. -/
theorem storeWords_outside {mem : ℕ → ℕ} {a x : ℕ} {ws : List ℕ}
    (hx : x < a ∨ a + 4 * ws.length ≤ x) : storeWords mem a ws x = mem x := by
  induction ws generalizing mem a with
  | nil => rfl
  | cons w ws ih =>
    rw [List.length_cons] at hx
    rw [storeWords, ih (by omega), Function.update_of_ne (by omega)]

/-- INTERNAL: the words that were stored. -/
theorem wordsAt_storeWords (mem : ℕ → ℕ) (a : ℕ) (ws : List ℕ) :
    WordsAt (storeWords mem a ws) a ws := by
  induction ws generalizing mem a with
  | nil => trivial
  | cons w ws ih =>
    refine ⟨?_, ih _ _⟩
    rw [storeWords, storeWords_outside (by omega), Function.update_self]

/-- The words between the stack pointer and the top of the stack. -/
structure Stack (p : Processor) (ws : List ℕ) (top : ℕ) : Prop where
  depth : p.reg .esp + 4 * ws.length = top
  top_lt : top < 2 ^ 32
  words : WordsAt p.mem (p.reg .esp) ws

namespace Stack

variable {p : Processor} {w : ℕ} {ws : List ℕ} {top : ℕ}

/-- INTERNAL: other registers do not matter. -/
theorem congr {q : Processor} (hstack : Stack p ws top) (hesp : q.reg .esp = p.reg .esp)
    (hmem : q.mem = p.mem) : Stack q ws top :=
  ⟨hesp ▸ hstack.depth, hstack.top_lt, by rw [hesp, hmem]; exact hstack.words⟩

/-- INTERNAL: a word is pushed. -/
theorem push (hstack : Stack p ws top) (w : ℕ) (hroom : 4 * (ws.length + 1) ≤ top) :
    Stack (p.pushWord w) (w :: ws) top := by
  have hdepth := hstack.depth
  have htop := hstack.top_lt
  have hesp : sub32 (p.reg .esp) 4 = p.reg .esp - 4 := sub32_eq (by omega) (by omega)
  have hreg : (p.pushWord w).reg .esp = p.reg .esp - 4 := by
    simp only [Processor.pushWord, Processor.setReg, Function.update_self, hesp]
  refine ⟨?_, htop, ?_⟩
  · rw [hreg, List.length_cons]
    omega
  · rw [hreg]
    simp only [Processor.pushWord, hesp, WordsAt, Function.update_self, true_and]
    rw [show p.reg .esp - 4 + 4 = p.reg .esp by omega]
    exact hstack.words.update (by omega)

/-- INTERNAL: it goes below the words that are there. -/
theorem push_mem (hstack : Stack p ws top) (w : ℕ) (hroom : 4 * (ws.length + 1) ≤ top) {x : ℕ}
    (hx : x ≠ top - 4 * (ws.length + 1)) : (p.pushWord w).mem x = p.mem x := by
  have hdepth := hstack.depth
  have htop := hstack.top_lt
  have hesp : sub32 (p.reg .esp) 4 = p.reg .esp - 4 := sub32_eq (by omega) (by omega)
  simp only [Processor.pushWord, hesp]
  exact Function.update_of_ne (by omega) _ _

/-- INTERNAL: the word on the top. -/
theorem popWord_fst (hstack : Stack p (w :: ws) top) : p.popWord.1 = w := hstack.words.1

/-- INTERNAL: a word is popped. -/
theorem pop (hstack : Stack p (w :: ws) top) : Stack p.popWord.2 ws top := by
  have hdepth := hstack.depth
  have htop := hstack.top_lt
  rw [List.length_cons] at hdepth
  have hreg : p.popWord.2.reg .esp = p.reg .esp + 4 := by
    simp only [Processor.popWord, Processor.setReg, Function.update_self]
    exact add32_eq (by omega)
  refine ⟨?_, htop, ?_⟩
  · rw [hreg]
    omega
  · rw [hreg]
    exact hstack.words.2

/-- INTERNAL: a word is popped into a register. -/
theorem popReg (hstack : Stack p (w :: ws) top) {r : Reg} (hr : r ≠ .esp) :
    Stack (p.popReg r) ws top :=
  hstack.pop.congr (Function.update_of_ne hr.symm _ _) rfl

/-- INTERNAL: words are dropped. -/
theorem drop {xs : List ℕ} (hstack : Stack p (xs ++ ws) top) {n : ℕ} (hn : 4 * xs.length = n)
    (env : Surroundings) : Stack (p.exec env (.addEsp n)) ws top := by
  have hdepth := hstack.depth
  have htop := hstack.top_lt
  rw [List.length_append] at hdepth
  have hreg : (p.exec env (.addEsp n)).reg .esp = p.reg .esp + n := by
    simp only [Processor.exec, Processor.setReg, Function.update_self]
    exact add32_eq (by omega)
  have hwords : ∀ (xs : List ℕ) (a : ℕ), WordsAt p.mem a (xs ++ ws) →
      WordsAt p.mem (a + 4 * xs.length) ws := by
    intro xs
    induction xs with
    | nil => exact fun a h => h
    | cons x xs ih =>
      intro a h
      have := ih (a + 4) h.2
      rwa [List.length_cons, show a + 4 * (xs.length + 1) = a + 4 + 4 * xs.length by omega]
  refine ⟨?_, htop, ?_⟩
  · rw [hreg]
    omega
  · rw [hreg, ← hn]
    exact hwords xs _ hstack.words

/-- INTERNAL: an empty stack. -/
theorem empty {top : ℕ} (p : Processor) (htop : top < 2 ^ 32) (hesp : p.reg .esp = top) :
    Stack p [] top :=
  ⟨hesp, htop, trivial⟩

end Stack

/-! ## Registers -/

@[simp] theorem Processor.pushWord_reg (p : Processor) (w : ℕ) {r : Reg} (hr : r ≠ .esp) :
    (p.pushWord w).reg r = p.reg r := Function.update_of_ne hr _ _

@[simp] theorem Processor.pushWord_seg (p : Processor) (w : ℕ) : (p.pushWord w).seg = p.seg := rfl

@[simp] theorem Processor.pushWord_eflags (p : Processor) (w : ℕ) :
    (p.pushWord w).eflags = p.eflags := rfl

@[simp] theorem Processor.popReg_self (p : Processor) (r : Reg) :
    (p.popReg r).reg r = p.popWord.1 := Processor.setReg_self _ _ _

@[simp] theorem Processor.popReg_seg (p : Processor) (r : Reg) : (p.popReg r).seg = p.seg := rfl

@[simp] theorem Processor.popReg_other (p : Processor) {r r' : Reg} (hr : r' ≠ r)
    (hesp : r' ≠ .esp) : (p.popReg r).reg r' = p.reg r' :=
  (Processor.setReg_other _ hr _).trans (Processor.setReg_other _ hesp _)

@[simp] theorem Processor.popWord_reg (p : Processor) {r : Reg} (hr : r ≠ .esp) :
    p.popWord.2.reg r = p.reg r := Function.update_of_ne hr _ _

@[simp] theorem Processor.popWord_seg (p : Processor) : p.popWord.2.seg = p.seg := rfl

@[simp] theorem Processor.run_nil (env : Surroundings) (p : Processor) : p.run env [] = p := rfl

@[simp] theorem Processor.run_cons (env : Surroundings) (i : Instr) (is : List Instr)
    (p : Processor) : p.run env (i :: is) = (p.exec env i).run env is := rfl

/-- INTERNAL: some instructions after others. -/
theorem Processor.run_append (env : Surroundings) (is js : List Instr) (p : Processor) :
    p.run env (is ++ js) = (p.run env is).run env js :=
  List.foldl_append

/-! ## All registers -/

/-- The registers in the order of `popa`, with what it skips. -/
def popaWords (p : Processor) (esp : ℕ) : List ℕ :=
  [p.reg .edi, p.reg .esi, p.reg .ebp, esp, p.reg .ebx, p.reg .edx, p.reg .ecx, p.reg .eax]

/-- INTERNAL: all registers are pushed. -/
theorem Stack.pusha {env : Surroundings} {p : Processor} {ws : List ℕ} {top : ℕ}
    (hstack : Stack p ws top) (hroom : 4 * (ws.length + 8) ≤ top) :
    Stack (p.exec env .pusha) (popaWords p (p.reg .esp) ++ ws) top ∧
      (p.exec env .pusha).seg = p.seg ∧
      ∀ x, x < top - 4 * (ws.length + 8) ∨ top ≤ x → (p.exec env .pusha).mem x = p.mem x := by
  have h₁ := hstack.push (p.reg .eax) (by omega)
  have h₂ := h₁.push (p.reg .ecx) (by simp only [List.length_cons]; omega)
  have h₃ := h₂.push (p.reg .edx) (by simp only [List.length_cons]; omega)
  have h₄ := h₃.push (p.reg .ebx) (by simp only [List.length_cons]; omega)
  have h₅ := h₄.push (p.reg .esp) (by simp only [List.length_cons]; omega)
  have h₆ := h₅.push (p.reg .ebp) (by simp only [List.length_cons]; omega)
  have h₇ := h₆.push (p.reg .esi) (by simp only [List.length_cons]; omega)
  have h₈ := h₇.push (p.reg .edi) (by simp only [List.length_cons]; omega)
  refine ⟨?_, rfl, fun x hx => ?_⟩
  · simpa [Processor.exec, popaWords] using h₈
  · have hmem : (p.exec env .pusha).mem x = _ :=
      h₇.push_mem (p.reg .edi) (by simp only [List.length_cons]; omega)
        (by simp only [List.length_cons]; omega)
    rw [hmem, h₆.push_mem _ (by simp only [List.length_cons]; omega)
        (by simp only [List.length_cons]; omega),
      h₅.push_mem _ (by simp only [List.length_cons]; omega)
        (by simp only [List.length_cons]; omega),
      h₄.push_mem _ (by simp only [List.length_cons]; omega)
        (by simp only [List.length_cons]; omega),
      h₃.push_mem _ (by simp only [List.length_cons]; omega)
        (by simp only [List.length_cons]; omega),
      h₂.push_mem _ (by simp only [List.length_cons]; omega)
        (by simp only [List.length_cons]; omega),
      h₁.push_mem _ (by simp only [List.length_cons]; omega)
        (by simp only [List.length_cons]; omega), hstack.push_mem _ (by omega) (by omega)]

/-- INTERNAL: and popped again. -/
theorem Stack.popa {env : Surroundings} {p : Processor} {ws : List ℕ} {top : ℕ}
    {edi esi ebp esp ebx edx ecx eax : ℕ}
    (hstack : Stack p (edi :: esi :: ebp :: esp :: ebx :: edx :: ecx :: eax :: ws) top) :
    Stack (p.exec env .popa) ws top ∧
      (∀ esp', popaWords (p.exec env .popa) esp' = [edi, esi, ebp, esp', ebx, edx, ecx, eax]) ∧
      (p.exec env .popa).seg = p.seg ∧ (p.exec env .popa).mem = p.mem := by
  have h₁ := hstack.popReg (r := .edi) (by decide)
  have h₂ := h₁.popReg (r := .esi) (by decide)
  have h₃ := h₂.popReg (r := .ebp) (by decide)
  have h₄ := h₃.pop
  have h₅ := h₄.popReg (r := .ebx) (by decide)
  have h₆ := h₅.popReg (r := .edx) (by decide)
  have h₇ := h₆.popReg (r := .ecx) (by decide)
  have h₈ := h₇.popReg (r := .eax) (by decide)
  refine ⟨h₈, fun esp' => ?_, rfl, rfl⟩
  simp [popaWords, Processor.exec, hstack.popWord_fst, h₁.popWord_fst, h₂.popWord_fst,
    h₄.popWord_fst, h₅.popWord_fst, h₆.popWord_fst, h₇.popWord_fst]

/-! ## Interrupts -/

namespace Processor

variable {p : Processor} {ss0 esp0 top : ℕ} {gate : Gate} {error : Option ℕ}

/-- INTERNAL: an interrupt leaves the other registers. -/
theorem interrupt_reg {r : Reg} (hr : r ≠ .esp) :
    (p.interrupt ss0 esp0 gate error).reg r = p.reg r := by
  unfold interrupt
  cases error <;> dsimp only <;> split_ifs <;>
    simp only [pushWord_reg _ _ hr, setSeg, setReg, Function.update_of_ne hr]

/-- INTERNAL: it leaves the segments of data. -/
theorem interrupt_ds : (p.interrupt ss0 esp0 gate error).seg .ds = p.seg .ds := by
  unfold interrupt
  cases error <;> dsimp only <;> split_ifs <;> rfl

/-- INTERNAL: it enters the code segment of the gate. -/
theorem interrupt_cs : (p.interrupt ss0 esp0 gate error).seg .cs = gate.cs := by
  unfold interrupt
  cases error <;> rfl

/-- INTERNAL: the words that it pushes on the stack of a more privileged program. -/
theorem interrupt_stack (hprivilege : gate.cs % 4 < p.seg .cs % 4) (hroom : 24 ≤ esp0)
    (htop : esp0 < 2 ^ 32) :
    Stack (p.interrupt ss0 esp0 gate error)
      (error.toList ++ [p.eip, p.seg .cs, p.eflags, p.reg .esp, p.seg .ss]) esp0 ∧
      ∀ x, x < esp0 - 24 ∨ esp0 ≤ x → (p.interrupt ss0 esp0 gate error).mem x = p.mem x := by
  have hempty : Stack ((p.setReg .esp esp0).setSeg .ss ss0) [] esp0 :=
    Stack.empty _ htop (by rw [setSeg_reg, setReg_self])
  have h₁ := hempty.push (p.seg .ss) (show 4 * 1 ≤ esp0 by omega)
  have h₂ := h₁.push (p.reg .esp) (show 4 * 2 ≤ esp0 by omega)
  have h₃ := h₂.push p.eflags (show 4 * 3 ≤ esp0 by omega)
  have h₄ := h₃.push (p.seg .cs) (show 4 * 4 ≤ esp0 by omega)
  have h₅ := h₄.push p.eip (show 4 * 5 ≤ esp0 by omega)
  have hmem : ∀ x, x < esp0 - 24 ∨ esp0 ≤ x →
      ((((((p.setReg .esp esp0).setSeg .ss ss0).pushWord (p.seg .ss)).pushWord (p.reg .esp)).pushWord
        p.eflags).pushWord (p.seg .cs) |>.pushWord p.eip).mem x = p.mem x := by
    intro x hx
    rw [h₄.push_mem _ (show 4 * 5 ≤ esp0 by omega) (show x ≠ esp0 - 4 * 5 by omega),
      h₃.push_mem _ (show 4 * 4 ≤ esp0 by omega) (show x ≠ esp0 - 4 * 4 by omega),
      h₂.push_mem _ (show 4 * 3 ≤ esp0 by omega) (show x ≠ esp0 - 4 * 3 by omega),
      h₁.push_mem _ (show 4 * 2 ≤ esp0 by omega) (show x ≠ esp0 - 4 * 2 by omega),
      hempty.push_mem _ (show 4 * 1 ≤ esp0 by omega) (show x ≠ esp0 - 4 * 1 by omega)]
    rfl
  unfold interrupt
  rw [if_pos hprivilege]
  cases error with
  | none => exact ⟨h₅.congr rfl rfl, hmem⟩
  | some e =>
    refine ⟨(h₅.push e (show 4 * 6 ≤ esp0 by omega)).congr rfl rfl, fun x hx => ?_⟩
    exact (h₅.push_mem e (show 4 * 6 ≤ esp0 by omega) (show x ≠ esp0 - 4 * 6 by omega)).trans
      (hmem x hx)

/-- INTERNAL: and on that of one that is as privileged. -/
theorem interrupt_sameStack (hprivilege : ¬gate.cs % 4 < p.seg .cs % 4) (hroom : 16 ≤ p.reg .esp)
    (htop : p.reg .esp < 2 ^ 32) :
    Stack (p.interrupt ss0 esp0 gate error)
      (error.toList ++ [p.eip, p.seg .cs, p.eflags]) (p.reg .esp) := by
  have hframe := (((Stack.empty p htop rfl).push p.eflags (by simp only [List.length_nil]; omega)).push
    (p.seg .cs) (by simp only [List.length_cons, List.length_nil]; omega)).push p.eip
    (by simp only [List.length_cons, List.length_nil]; omega)
  unfold interrupt
  rw [if_neg hprivilege]
  cases error with
  | none => exact hframe.congr rfl rfl
  | some e =>
    exact (hframe.push e (by simp only [List.length_cons, List.length_nil]; omega)).congr rfl rfl

/-- INTERNAL: a return to a less privileged program takes its stack too. -/
theorem iret_outer {eip cs eflags esp ss : ℕ} {ws : List ℕ}
    (hstack : Stack p (eip :: cs :: eflags :: esp :: ss :: ws) top)
    (hprivilege : p.seg .cs % 4 < cs % 4) :
    p.iret.eip = eip ∧ p.iret.eflags = eflags ∧ p.iret.reg .esp = esp ∧
      (∀ r, r ≠ .esp → p.iret.reg r = p.reg r) ∧
      p.iret.seg = Function.update (Function.update p.seg .cs (cs % 2 ^ 16)) .ss (ss % 2 ^ 16) ∧
      p.iret.mem = p.mem := by
  have heip := hstack.popWord_fst
  have hcs := hstack.pop.popWord_fst
  have hflags := hstack.pop.pop.popWord_fst
  have hrest := hstack.pop.pop.pop
  have hesp := hrest.popWord_fst
  have hss := hrest.pop.popWord_fst
  have hiret : p.iret = ((({ p.popWord.2.popWord.2.popWord.2.setSeg .cs (cs % 2 ^ 16) with
      eip := eip, eflags := eflags } : Processor).popWord.2.popWord.2.setReg .esp esp).setSeg .ss
        (ss % 2 ^ 16)) := by
    unfold iret
    dsimp only
    rw [hcs, if_pos (by simpa only [popWord_seg] using hprivilege), heip, hflags]
    congr 2
  rw [hiret]
  refine ⟨rfl, rfl, by rw [setSeg_reg, setReg_self], fun r hr => ?_, rfl, rfl⟩
  simp only [setSeg, setReg, popWord, Function.update_of_ne hr]

/-- INTERNAL: a return to one that is as privileged keeps its stack. -/
theorem iret_same {eip cs eflags : ℕ} {ws : List ℕ}
    (hstack : Stack p (eip :: cs :: eflags :: ws) top)
    (hprivilege : ¬p.seg .cs % 4 < cs % 4) :
    p.iret.eip = eip ∧ p.iret.eflags = eflags ∧ Stack p.iret ws top ∧
      (∀ r, r ≠ .esp → p.iret.reg r = p.reg r) ∧
      p.iret.seg = Function.update p.seg .cs (cs % 2 ^ 16) ∧ p.iret.mem = p.mem := by
  have heip := hstack.popWord_fst
  have hcs := hstack.pop.popWord_fst
  have hflags := hstack.pop.pop.popWord_fst
  have hrest := hstack.pop.pop.pop
  have hiret : p.iret = { p.popWord.2.popWord.2.popWord.2.setSeg .cs (cs % 2 ^ 16) with
      eip := eip, eflags := eflags } := by
    unfold iret
    dsimp only
    rw [hcs, if_neg (by simpa only [popWord_seg] using hprivilege), heip, hflags]
  rw [hiret]
  refine ⟨rfl, rfl, hrest.congr rfl rfl, fun r hr => ?_, rfl, rfl⟩
  simp only [setSeg, setReg, popWord, Function.update_of_ne hr]

end Processor

end LakeOS.Library
