import LakeOS.Model.Stubs
import Mathlib.Data.Nat.Notation

/-!
# Interrupts return to where they came from

The stubs leave the registers of the interrupted program on the stack as a `registers_t`, and take
them from there again.  What the handler makes of that frame is what the program resumes with.
-/

set_option autoImplicit false

namespace LakeOS.Analysis

open LakeOS.Library LakeOS.Model

section

variable {env : Surroundings} {p : Processor} {ws : List ℕ} {top : ℕ}

/-- INTERNAL: **the registers are saved**, with the place of the frame on top. -/
theorem saveContext_stack (hstack : Stack p ws top) (hroom : 4 * (ws.length + 10) ≤ top)
    (hds : p.seg .ds < 2 ^ 16) :
    Stack (p.run env saveContext)
        ((top - 4 * (ws.length + 9)) :: p.seg .ds :: popaWords p (p.reg .esp) ++ ws) top ∧
      (p.run env saveContext).seg .cs = p.seg .cs ∧
      (p.run env saveContext).seg .ss = p.seg .ss ∧
      ∀ x, x < top - 4 * (ws.length + 10) ∨ top ≤ x →
        (p.run env saveContext).mem x = p.mem x := by
  obtain ⟨hpusha, hseg, hmem⟩ := @Stack.pusha env p ws top hstack (by omega)
  have hlength : (popaWords p (p.reg .esp) ++ ws).length = ws.length + 8 := by
    rw [List.length_append, popaWords]
    simp only [List.length_cons, List.length_nil]
    omega
  generalize hq : p.exec env .pusha = q at hpusha hseg hmem
  -- the data segment, as a word
  have heax : ((q.exec env (.clear .eax)).exec env (.movFromSeg .eax .ds)).reg .eax = p.seg .ds := by
    simp only [Processor.exec, Processor.setLow, Processor.setReg_self, Processor.setReg_seg, hseg]
    omega
  have hclear : Stack ((q.exec env (.clear .eax)).exec env (.movFromSeg .eax .ds))
      (popaWords p (p.reg .esp) ++ ws) top := by
    refine hpusha.congr ?_ rfl
    simp [Processor.exec, Processor.setLow]
  have hpush := hclear.push (p.seg .ds) (by rw [hlength]; omega)
  generalize hq' : (q.exec env (.clear .eax)).exec env (.movFromSeg .eax .ds) = q' at heax hclear hpush
  have hcs : q'.seg .cs = p.seg .cs ∧ q'.seg .ss = p.seg .ss := by
    rw [← hq', ← hseg]
    exact ⟨rfl, rfl⟩
  have hmem' : q'.mem = q.mem := by
    rw [← hq']
    simp [Processor.exec]
  obtain ⟨s, hs⟩ : ∃ s, s = fun v => ((((q'.pushWord (p.seg .ds)).setLow .eax 0x10).setSeg .ds
      v |>.setSeg .es v).setSeg .fs v).setSeg .gs v := ⟨_, rfl⟩
  have hrun : ∃ v, p.run env saveContext = (s v).pushWord ((s v).reg .esp) := by
    refine ⟨((q'.pushWord (p.seg .ds)).setLow .eax 0x10).reg .eax % 2 ^ 16, ?_⟩
    simp only [saveContext, Processor.run_cons, Processor.run_nil]
    rw [hq, hq', show q'.exec env (.push .eax) = q'.pushWord (p.seg .ds) by rw [← heax]; rfl, hs]
    simp only [Processor.exec, Processor.setSeg_reg]
  obtain ⟨v, hrun⟩ := hrun
  have hstack' : Stack (s v) (p.seg .ds :: (popaWords p (p.reg .esp) ++ ws)) top := by
    refine hpush.congr ?_ (by simp [hs])
    rw [hs]
    simp [Processor.setLow]
  have hesp : (s v).reg .esp = top - 4 * (ws.length + 9) := by
    have hdepth := hstack'.depth
    rw [List.length_cons, hlength] at hdepth
    omega
  rw [hrun, hesp]
  refine ⟨hstack'.push _ (by rw [List.length_cons, hlength]; omega), ?_, ?_, fun x hx => ?_⟩
  · rw [hs, ← hcs.1]
    simp [Processor.setLow]
  · rw [hs, ← hcs.2]
    simp [Processor.setLow]
  · rw [hstack'.push_mem _ (by rw [List.length_cons, hlength]; omega)
      (by rw [List.length_cons, hlength]; omega)]
    have hsmem : (s v).mem = (q'.pushWord (p.seg .ds)).mem := by simp [hs]
    rw [hsmem, hclear.push_mem _ (by rw [hlength]; omega) (by rw [hlength]; omega), hmem',
      hmem x (by omega)]

/-- INTERNAL: **the registers are restored**. -/
theorem restoreContext_stack {ds edi esi ebp esp ebx edx ecx eax : ℕ}
    (hstack : Stack p (ds :: edi :: esi :: ebp :: esp :: ebx :: edx :: ecx :: eax :: ws) top) :
    let q := p.run env restoreContext
    Stack q ws top ∧ (∀ esp', popaWords q esp' = [edi, esi, ebp, esp', ebx, edx, ecx, eax]) ∧
      q.seg .ds = ds % 2 ^ 16 ∧ q.seg .es = ds % 2 ^ 16 ∧ q.seg .fs = ds % 2 ^ 16 ∧
      q.seg .gs = ds % 2 ^ 16 ∧ q.seg .cs = p.seg .cs ∧ q.seg .ss = p.seg .ss ∧ q.mem = p.mem := by
  intro q
  have hpop := hstack.popReg (r := .eax) (by decide)
  have heax : (p.popReg .eax).reg .eax = ds := by
    rw [Processor.popReg_self, hstack.popWord_fst]
  have hsegs : Stack (((((p.popReg .eax).setSeg .ds (ds % 2 ^ 16)).setSeg .es
      (ds % 2 ^ 16)).setSeg .fs (ds % 2 ^ 16)).setSeg .gs (ds % 2 ^ 16))
      (edi :: esi :: ebp :: esp :: ebx :: edx :: ecx :: eax :: ws) top := hpop.congr rfl rfl
  obtain ⟨hrest, hregs, hseg, hmem⟩ := @Stack.popa env _ _ _ _ _ _ _ _ _ _ _ hsegs
  have hq : q = (((((p.popReg .eax).setSeg .ds (ds % 2 ^ 16)).setSeg .es
      (ds % 2 ^ 16)).setSeg .fs (ds % 2 ^ 16)).setSeg .gs (ds % 2 ^ 16)).exec env .popa := by
    rw [← heax]
    rfl
  rw [hq]
  exact ⟨hrest, hregs, by rw [hseg]; simp, by rw [hseg]; simp, by rw [hseg]; simp,
    by rw [hseg]; simp, by rw [hseg]; simp, by rw [hseg]; simp, hmem⟩

/-! ## Interrupts with a frame -/

/-- The frame of an interrupted program whose kernel stack begins at `esp0`. -/
def trapFrame (num error esp0 : ℕ) (p : Processor) : RegistersT where
  ds := p.seg .ds
  edi := p.reg .edi
  esi := p.reg .esi
  ebp := p.reg .ebp
  kernEsp := esp0 - 28
  ebx := p.reg .ebx
  edx := p.reg .edx
  ecx := p.reg .ecx
  eax := p.reg .eax
  intNum := num
  error := error
  eip := p.eip
  cs := p.seg .cs
  eflags := p.eflags
  esp := p.reg .esp
  ss := p.seg .ss

/-- A program goes on with the registers of a frame. -/
structure Resumes (q : Processor) (r : RegistersT) : Prop where
  popa : popaWords q (q.reg .esp) = [r.edi, r.esi, r.ebp, r.esp, r.ebx, r.edx, r.ecx, r.eax]
  eip : q.eip = r.eip
  eflags : q.eflags = r.eflags
  cs : q.seg .cs = r.cs % 2 ^ 16
  ss : q.seg .ss = r.ss % 2 ^ 16
  data : ∀ s, s ≠ .cs → s ≠ .ss → q.seg s = r.ds % 2 ^ 16

/-- A C function with a pointer to words as its argument: it returns on the stack that it was called
on, and makes `f` of the words. -/
def Handles (callee : Processor → Processor) (f : List ℕ → List ℕ) (count : ℕ) : Prop :=
  ∀ q ws, ws.length = count → q.mem (q.reg .esp) = q.reg .esp + 4 →
    WordsAt q.mem (q.reg .esp + 4) ws →
    (callee q).reg .esp = q.reg .esp ∧
      ((callee q).seg .cs = q.seg .cs ∧ (callee q).seg .ss = q.seg .ss) ∧
      WordsAt (callee q).mem (q.reg .esp + 4) (f ws) ∧ (f ws).length = ws.length

/-- INTERNAL: a handler on the stack that its stub leaves it. -/
theorem Handles.call {f : List ℕ → List ℕ} {ws : List ℕ} (hcallee : Handles env.callee f ws.length)
    (hstack : Stack p ((top - 4 * ws.length) :: ws) top) :
    Stack (p.run env [.call, .addEsp 4]) (f ws) top ∧
      (p.run env [.call, .addEsp 4]).seg .cs = p.seg .cs ∧
      (p.run env [.call, .addEsp 4]).seg .ss = p.seg .ss := by
  have hdepth := hstack.depth
  have htop := hstack.top_lt
  rw [List.length_cons] at hdepth
  have hpointer : p.mem (p.reg .esp) = p.reg .esp + 4 := hstack.words.1.trans (by omega)
  obtain ⟨hesp, hcs, hwords, hlength⟩ := hcallee p ws rfl hpointer hstack.words.2
  have hcalled : Stack (env.callee p) ([(env.callee p).mem (p.reg .esp)] ++ f ws) top := by
    refine ⟨?_, htop, ?_⟩
    · rw [hesp, List.length_append, List.length_singleton, hlength]
      omega
    · rw [hesp]
      exact ⟨rfl, hwords⟩
  exact ⟨hcalled.drop (n := 4) rfl env, hcs⟩

/-- INTERNAL: **a frame is resumed**, by `isr_return` as well as by `enter_context`. -/
theorem isrReturn_resumes {r : RegistersT} (hstack : Stack p r.words top)
    (hprivilege : p.seg .cs % 4 < r.cs % 4) :
    Resumes (p.run env isrReturn) r ∧ (p.run env isrReturn).mem = p.mem := by
  obtain ⟨hrest, hregs, hds, hes, hfs, hgs, hcs, -, hmem⟩ := @restoreContext_stack env p _ _ _ _ _ _ _ _ _ _ _ hstack
  generalize hq : p.run env restoreContext = q at hrest hregs hds hes hfs hgs hcs hmem
  have hdrop : Stack (q.exec env (.addEsp 8)) [r.eip, r.cs, r.eflags, r.esp, r.ss] top :=
    @Stack.drop q _ top [r.intNum, r.error] hrest 8 rfl env
  have hrun : p.run env isrReturn = (q.exec env (.addEsp 8)).iret := by
    rw [isrReturn, Processor.run_append, hq]
    rfl
  have hseg : (q.exec env (.addEsp 8)).seg = q.seg := rfl
  obtain ⟨heip, heflags, hesp, hreg, hsegs, hiret⟩ := Processor.iret_outer hdrop
    (by rw [hseg, hcs]; exact hprivilege)
  have hregs' : ∀ x, x ≠ .esp → (p.run env isrReturn).reg x = q.reg x := by
    intro x hx
    rw [hrun, hreg x hx]
    exact Processor.setReg_other _ hx _
  rw [hseg] at hsegs
  refine ⟨⟨?_, by rw [hrun, heip], by rw [hrun, heflags], ?_, ?_, fun x hcode hstackSeg => ?_⟩,
    by rw [hrun, hiret, ← hmem]; rfl⟩
  · have hespReturn : (p.run env isrReturn).reg .esp = r.esp := by rw [hrun, hesp]
    rw [← hregs r.esp, hespReturn]
    unfold popaWords
    rw [hregs' .edi (by decide), hregs' .esi (by decide), hregs' .ebp (by decide),
      hregs' .ebx (by decide), hregs' .edx (by decide), hregs' .ecx (by decide),
      hregs' .eax (by decide)]
  · rw [hrun, hsegs, Function.update_of_ne (by decide), Function.update_self]
  · rw [hrun, hsegs, Function.update_self]
  · rw [hrun, hsegs, Function.update_of_ne hstackSeg, Function.update_of_ne hcode]
    cases x with
    | cs => exact absurd rfl hcode
    | ss => exact absurd rfl hstackSeg
    | ds => exact hds
    | es => exact hes
    | fs => exact hfs
    | gs => exact hgs

/-- INTERNAL: **the stub leaves the frame** at the beginning of the kernel stack. -/
theorem isr_entry {num ss0 esp0 : ℕ} {gate : Processor.Gate} {error : Option ℕ}
    (hprivilege : gate.cs % 4 < p.seg .cs % 4) (hcode : error.isSome = isrErrorCode num)
    (hroom : 68 ≤ esp0) (htop : esp0 < 2 ^ 32) (hds : p.seg .ds < 2 ^ 16) :
    let push := if isrErrorCode num then [Instr.pushImm num] else [.pushImm 0, .pushImm num]
    let q := (p.interrupt ss0 esp0 gate error).run env (push ++ saveContext)
    Stack q ((esp0 - sizeofRegistersT) :: (trapFrame num (error.getD 0) esp0 p).words) esp0 ∧
      q.seg .cs = gate.cs ∧ ∀ x, x < esp0 - 68 ∨ esp0 ≤ x → q.mem x = p.mem x := by
  intro push q
  have hreg : ∀ r, r ≠ .esp → (p.interrupt ss0 esp0 gate error).reg r = p.reg r :=
    fun r hr => Processor.interrupt_reg hr
  obtain ⟨hstack, hmem⟩ := @Processor.interrupt_stack p ss0 esp0 gate error hprivilege (by omega) htop
  have hcs := @Processor.interrupt_cs p ss0 esp0 gate error
  have hdata := @Processor.interrupt_ds p ss0 esp0 gate error
  -- the number and the error code, whoever pushes it
  have hpush : ∃ q', (p.interrupt ss0 esp0 gate error).run env push = q' ∧
      Stack q' [num, error.getD 0, p.eip, p.seg .cs, p.eflags, p.reg .esp, p.seg .ss] esp0 ∧
      (∀ r, r ≠ .esp → q'.reg r = p.reg r) ∧ q'.seg .ds = p.seg .ds ∧ q'.seg .cs = gate.cs ∧
      ∀ x, x < esp0 - 68 ∨ esp0 ≤ x → q'.mem x = p.mem x := by
    refine ⟨_, rfl, ?_⟩
    cases error with
    | none =>
      have hpush : push = [.pushImm 0, .pushImm num] := if_neg (by rw [← hcode]; decide)
      rw [hpush]
      have hzero := hstack.push 0 (show 4 * 6 ≤ esp0 by omega)
      refine ⟨hzero.push num (show 4 * 7 ≤ esp0 by omega), fun r hr => ?_, hdata, hcs,
        fun x hx => ?_⟩
      · rw [← hreg r hr]
        exact (Processor.pushWord_reg _ _ hr).trans (Processor.pushWord_reg _ _ hr)
      · refine (hzero.push_mem num (show 4 * 7 ≤ esp0 by omega)
          (show x ≠ esp0 - 4 * 7 by omega)).trans ?_
        refine (hstack.push_mem 0 (show 4 * 6 ≤ esp0 by omega)
          (show x ≠ esp0 - 4 * 6 by omega)).trans (hmem x (by omega))
    | some e =>
      have hpush : push = [.pushImm num] := if_pos (by rw [← hcode]; rfl)
      rw [hpush]
      refine ⟨hstack.push num (show 4 * 7 ≤ esp0 by omega), fun r hr => ?_, hdata, hcs,
        fun x hx => ?_⟩
      · rw [← hreg r hr]
        exact Processor.pushWord_reg _ _ hr
      · exact (hstack.push_mem num (show 4 * 7 ≤ esp0 by omega)
          (show x ≠ esp0 - 4 * 7 by omega)).trans (hmem x (by omega))
  obtain ⟨q', hq', hpushed, hregs, hds', hcs', hmem'⟩ := hpush
  obtain ⟨hsaved, hsavedCs, -, hsavedMem⟩ := @saveContext_stack env q' _ esp0 hpushed
    (by simp only [List.length_cons, List.length_nil]; omega) (by rw [hds']; exact hds)
  have hesp : q'.reg .esp = esp0 - 28 := by
    have hdepth := hpushed.depth
    simp only [List.length_cons, List.length_nil] at hdepth
    omega
  have hq : q = q'.run env saveContext := by
    rw [← hq']
    exact Processor.run_append _ _ _ _
  rw [hq]
  refine ⟨?_, hsavedCs.trans hcs', fun x hx => (hsavedMem x ?_).trans (hmem' x hx)⟩
  rotate_left
  · simp only [List.length_cons, List.length_nil]
    omega
  rw [hesp, hds'] at hsaved
  unfold popaWords at hsaved
  rw [hregs _ (by decide), hregs _ (by decide), hregs _ (by decide), hregs _ (by decide),
    hregs _ (by decide), hregs _ (by decide), hregs _ (by decide)] at hsaved
  exact hsaved

/-- **An interrupted user program resumes with what the handler makes of its frame**, whichever of
the processor and the stub pushes the error code. -/
theorem isr_resumes {num ss0 esp0 : ℕ} {gate : Processor.Gate} {error : Option ℕ} {f : List ℕ → List ℕ}
    {r : RegistersT} (hprivilege : gate.cs % 4 < p.seg .cs % 4)
    (hcode : error.isSome = isrErrorCode num) (hroom : 68 ≤ esp0) (htop : esp0 < 2 ^ 32)
    (hds : p.seg .ds < 2 ^ 16) (hcallee : Handles env.callee f 16)
    (hf : f (trapFrame num (error.getD 0) esp0 p).words = r.words)
    (hr : gate.cs % 4 < r.cs % 4) :
    Resumes ((p.interrupt ss0 esp0 gate error).run env (isr num)) r := by
  obtain ⟨hentry, hcs, -⟩ := @isr_entry env p num ss0 esp0 gate error hprivilege hcode hroom htop hds
  have hrun : ∀ q : Processor, q.run env (isr num) =
      ((q.run env ((if isrErrorCode num then [Instr.pushImm num] else [.pushImm 0, .pushImm num]) ++
        saveContext)).run env [.call, .addEsp 4]).run env isrReturn := by
    intro q
    rw [← Processor.run_append, ← Processor.run_append, isr, isrCommon]
    simp only [List.append_assoc]
  obtain ⟨hcalled, hcs', -⟩ := @Handles.call env _ esp0 f
    (trapFrame num (error.getD 0) esp0 p).words hcallee hentry
  rw [hf] at hcalled
  rw [hrun]
  exact (isrReturn_resumes hcalled (by rw [hcs', hcs]; exact hr)).1

/-! ## Frames that handlers change -/

/-- What a handler on frames makes of their words. -/
def onWords (handler : RegistersT → RegistersT) (ws : List ℕ) : List ℕ :=
  match ws with
  | [ds, edi, esi, ebp, kernEsp, ebx, edx, ecx, eax, intNum, error, eip, cs, eflags, esp, ss] =>
    (handler ⟨ds, edi, esi, ebp, kernEsp, ebx, edx, ecx, eax, intNum, error, eip, cs, eflags, esp,
      ss⟩).words
  | _ => ws

/-- INTERNAL: **the handlers change no register but `eax`**, and that only for a system call. -/
theorem isrHandler_frame {σ : Type} {pageFlt : σ → Option σ}
    {sys : SyscallNum → List ℕ → σ → Option (ℕ × σ)} {regs regs' : RegistersT} {s s' : σ}
    (hret : isrHandler pageFlt sys regs s = some (regs', s')) :
    regs' = { regs with eax := regs'.eax } ∧ (regs.intNum ≠ 0x80 → regs' = regs) := by
  unfold isrHandler at hret
  by_cases hfault : regs.intNum = 0xE
  · rw [if_pos hfault, Option.map_eq_some_iff] at hret
    obtain ⟨t, -, ht⟩ := hret
    cases ht
    exact ⟨rfl, fun _ => rfl⟩
  rw [if_neg hfault] at hret
  by_cases hcall : regs.intNum = 0x80
  · rw [if_pos hcall, isrSyscallHandler] at hret
    refine ⟨?_, fun h => absurd hcall h⟩
    split at hret
    · rw [Option.map_eq_some_iff] at hret
      obtain ⟨t, -, ht⟩ := hret
      cases ht
      rfl
    · cases hret
      rfl
  · rw [if_neg hcall] at hret
    exact absurd hret (by simp)

/-- INTERNAL: **a program goes on with its own registers** when its frame is resumed, but for
`eax`. -/
theorem Resumes.back {q : Processor} {num error esp0 eax : ℕ} (hseg : ∀ x, p.seg x < 2 ^ 16)
    (hresumes : Resumes q { trapFrame num error esp0 p with eax := eax }) :
    (∀ x, x ≠ .eax → q.reg x = p.reg x) ∧ q.reg .eax = eax ∧ q.eip = p.eip ∧
      q.eflags = p.eflags ∧ q.seg .cs = p.seg .cs ∧ q.seg .ss = p.seg .ss ∧
      ∀ x, x ≠ .cs → x ≠ .ss → q.seg x = p.seg .ds := by
  have hpopa := hresumes.popa
  simp only [popaWords, trapFrame, List.cons.injEq, and_true] at hpopa
  obtain ⟨hedi, hesi, hebp, hesp, hebx, hedx, hecx, heax⟩ := hpopa
  refine ⟨fun x hx => ?_, heax, hresumes.eip, hresumes.eflags, ?_, ?_, fun x hcode hstack => ?_⟩
  · cases x with
    | eax => exact absurd rfl hx
    | ecx => exact hecx
    | edx => exact hedx
    | ebx => exact hebx
    | esp => exact hesp
    | ebp => exact hebp
    | esi => exact hesi
    | edi => exact hedi
  · exact hresumes.cs.trans (Nat.mod_eq_of_lt (hseg .cs))
  · exact hresumes.ss.trans (Nat.mod_eq_of_lt (hseg .ss))
  · exact (hresumes.data x hcode hstack).trans (Nat.mod_eq_of_lt (hseg .ds))

/-- **A system call comes back to the next instruction of its process with all of the registers as
they were but `eax`**, whatever the kernel did in between, and so does an access that faulted with
`eax` as well; the data segments are all that of `ds`. -/
theorem isr_preserves {σ : Type} {pageFlt : σ → Option σ}
    {sys : SyscallNum → List ℕ → σ → Option (ℕ × σ)} {num ss0 esp0 : ℕ} {gate : Processor.Gate}
    {error : Option ℕ} {handler : RegistersT → RegistersT} {regs' : RegistersT} {s s' : σ}
    (hprivilege : gate.cs % 4 < p.seg .cs % 4) (hcode : error.isSome = isrErrorCode num)
    (hroom : 68 ≤ esp0) (htop : esp0 < 2 ^ 32) (hseg : ∀ x, p.seg x < 2 ^ 16)
    (hcallee : Handles env.callee (onWords handler) 16)
    (hhandler : handler (trapFrame num (error.getD 0) esp0 p) = regs')
    (hret : isrHandler pageFlt sys (trapFrame num (error.getD 0) esp0 p) s = some (regs', s')) :
    let q := (p.interrupt ss0 esp0 gate error).run env (isr num)
    (∀ x, x ≠ .eax → q.reg x = p.reg x) ∧ q.reg .eax = regs'.eax ∧
      (num ≠ 0x80 → q.reg .eax = p.reg .eax) ∧ q.eip = p.eip ∧ q.eflags = p.eflags ∧
      q.seg .cs = p.seg .cs ∧ q.seg .ss = p.seg .ss ∧
      ∀ x, x ≠ .cs → x ≠ .ss → q.seg x = p.seg .ds := by
  intro q
  obtain ⟨hframe, hsame⟩ := isrHandler_frame hret
  have hwords : onWords handler (trapFrame num (error.getD 0) esp0 p).words = regs'.words := by
    rw [← hhandler]
    rfl
  have hcs : regs'.cs = p.seg .cs := by rw [hframe]; rfl
  have hresumes : Resumes q regs' := isr_resumes hprivilege hcode hroom htop (hseg .ds) hcallee hwords
    (by rw [hcs]; exact hprivilege)
  rw [hframe] at hresumes
  obtain ⟨hregs, heax, hrest⟩ := hresumes.back hseg
  exact ⟨hregs, heax, fun hnum => heax.trans (by rw [hsame hnum]; rfl), hrest⟩

/-! ## Hardware interrupts -/

/-- INTERNAL: the stub puts the registers back, and leaves the words of the interrupt. -/
theorem irq_body {num : ℕ} (hstack : Stack p ws top) (hroom : 4 * (ws.length + 11) ≤ top)
    (hds : p.seg .ds < 2 ^ 16) (hcallee : Handles env.callee id (ws.length + 10)) :
    ∃ q : Processor, p.run env (irq num) = q.iret ∧ Stack q ws top ∧
      (∀ r, r ≠ .esp → q.reg r = p.reg r) ∧ q.seg .cs = p.seg .cs ∧ q.seg .ss = p.seg .ss ∧
      ∀ x, x ≠ .cs → x ≠ .ss → q.seg x = p.seg .ds := by
  have hpush := hstack.push num (by omega)
  have hregs : ∀ r, r ≠ .esp → (p.pushWord num).reg r = p.reg r :=
    fun r hr => Processor.pushWord_reg p num hr
  obtain ⟨hsaved, hcs, hss, -⟩ := @saveContext_stack env (p.pushWord num) _ top hpush
    (by rw [List.length_cons]; omega) hds
  obtain ⟨hcalled, hcs', hss'⟩ := @Handles.call env _ top id
    (p.seg .ds :: popaWords (p.pushWord num) ((p.pushWord num).reg .esp) ++ num :: ws)
    (by simpa [popaWords] using hcallee) (by
      rw [show (p.seg .ds :: popaWords (p.pushWord num) ((p.pushWord num).reg .esp) ++
        num :: ws).length = (num :: ws).length + 9 by simp [popaWords]]
      exact hsaved)
  obtain ⟨hrest, hback, hds', hes, hfs, hgs, hcs'', hss'', -⟩ :=
    @restoreContext_stack env _ _ _ _ _ _ _ _ _ _ _ _ hcalled
  generalize hq : ((((p.pushWord num).run env saveContext).run env [.call, .addEsp 4]).run env
    restoreContext) = q at hrest hback hds' hes hfs hgs hcs'' hss''
  have hdrop : Stack (q.exec env (.addEsp 4)) ws top := @Stack.drop q ws top [num] hrest 4 rfl env
  have hmod := Nat.mod_eq_of_lt hds
  have hrun : p.run env (irq num) = (q.exec env (.addEsp 4)).iret := by
    rw [irq, Processor.run_append, Processor.run_append, Processor.run_append, Processor.run_append,
      ← hq]
    rfl
  refine ⟨_, hrun, hdrop, fun r hr => ?_, hcs''.trans (hcs'.trans hcs), hss''.trans
    (hss'.trans hss), fun x hcode hstackSeg => ?_⟩
  · have hkeep : (q.exec env (.addEsp 4)).reg r = q.reg r := Processor.setReg_other _ hr _
    have hwords := hback 0
    simp only [popaWords, List.cons.injEq, and_true, true_and] at hwords
    obtain ⟨hedi, hesi, hebp, hebx, hedx, hecx, heax⟩ := hwords
    rw [hkeep, ← hregs r hr]
    cases r with
    | esp => exact absurd rfl hr
    | eax => exact heax
    | ecx => exact hecx
    | edx => exact hedx
    | ebx => exact hebx
    | ebp => exact hebp
    | esi => exact hesi
    | edi => exact hedi
  · cases x with
    | cs => exact absurd rfl hcode
    | ss => exact absurd rfl hstackSeg
    | ds => exact hds'.trans hmod
    | es => exact hes.trans hmod
    | fs => exact hfs.trans hmod
    | gs => exact hgs.trans hmod

/-- **A hardware interrupt leaves no trace** in the registers of the program that it comes upon, be
that a process or the kernel itself; only the segments `es`, `fs` and `gs` become those of `ds`. -/
theorem irq_transparent {num ss0 esp0 : ℕ} {gate : Processor.Gate} {count : ℕ}
    (hcount : count = if gate.cs % 4 < p.seg .cs % 4 then 15 else 13)
    (htop : top = if gate.cs % 4 < p.seg .cs % 4 then esp0 else p.reg .esp) (hroom : 64 ≤ top)
    (hlt : top < 2 ^ 32) (hseg : ∀ x, p.seg x < 2 ^ 16) (hcallee : Handles env.callee id count) :
    let q := (p.interrupt ss0 esp0 gate none).run env (irq num)
    q.reg = p.reg ∧ q.eip = p.eip ∧ q.eflags = p.eflags ∧ q.seg .cs = p.seg .cs ∧
      q.seg .ss = p.seg .ss ∧ ∀ x, x ≠ .cs → x ≠ .ss → q.seg x = p.seg .ds := by
  have hregs : ∀ r, r ≠ .esp → (p.interrupt ss0 esp0 gate none).reg r = p.reg r :=
    fun r hr => Processor.interrupt_reg hr
  have hcs := @Processor.interrupt_cs p ss0 esp0 gate none
  have hdata := @Processor.interrupt_ds p ss0 esp0 gate none
  have hds : (p.interrupt ss0 esp0 gate none).seg .ds < 2 ^ 16 := by rw [hdata]; exact hseg .ds
  intro q
  by_cases hprivilege : gate.cs % 4 < p.seg .cs % 4
  · -- a process: its stack pointer is one of the words
    rw [if_pos hprivilege] at hcount htop
    subst hcount htop
    obtain ⟨q', hq, hstack, hback, hcs', -, hdata'⟩ := @irq_body env _ _ top num
      (@Processor.interrupt_stack p ss0 top gate none hprivilege (by omega) hlt).1
      (show 4 * (5 + 11) ≤ top by omega) hds hcallee
    obtain ⟨heip, heflags, hesp, hreg, hsegs, -⟩ := Processor.iret_outer hstack
      (by rw [hcs', hcs]; exact hprivilege)
    rw [← hq] at heip heflags hesp hreg hsegs
    refine ⟨funext fun r => ?_, heip, heflags, ?_, ?_, fun x hcode hstackSeg => ?_⟩
    · by_cases hr : r = .esp
      · rw [hr]
        exact hesp
      · exact (hreg r hr).trans ((hback r hr).trans (hregs r hr))
    · exact (congrFun hsegs .cs).trans (by
        rw [Function.update_of_ne (by decide), Function.update_self, Nat.mod_eq_of_lt (hseg .cs)])
    · exact (congrFun hsegs .ss).trans (by
        rw [Function.update_self, Nat.mod_eq_of_lt (hseg .ss)])
    · refine (congrFun hsegs x).trans ?_
      rw [Function.update_of_ne hstackSeg, Function.update_of_ne hcode, hdata' x hcode hstackSeg,
        hdata]
  · -- the kernel: the stack is its own
    rw [if_neg hprivilege] at hcount htop
    subst hcount
    rw [htop] at hlt hroom
    obtain ⟨q', hq, hstack, hback, hcs', hss', hdata'⟩ := @irq_body env _ _ (p.reg .esp) num
      (@Processor.interrupt_sameStack p ss0 esp0 gate none hprivilege (by omega) hlt)
      (show 4 * (3 + 11) ≤ p.reg .esp by omega) hds hcallee
    obtain ⟨heip, heflags, hrest, hreg, hsegs, -⟩ := Processor.iret_same hstack
      (by rw [hcs', hcs]; omega)
    rw [← hq] at heip heflags hrest hreg hsegs
    have hss : (p.interrupt ss0 esp0 gate none).seg .ss = p.seg .ss := by
      unfold Processor.interrupt
      rw [if_neg hprivilege]
      rfl
    refine ⟨funext fun r => ?_, heip, heflags, ?_, ?_, fun x hcode hstackSeg => ?_⟩
    · by_cases hr : r = .esp
      · rw [hr]
        exact hrest.depth
      · exact (hreg r hr).trans ((hback r hr).trans (hregs r hr))
    · exact (congrFun hsegs .cs).trans (by
        rw [Function.update_self, Nat.mod_eq_of_lt (hseg .cs)])
    · refine (congrFun hsegs .ss).trans ?_
      rw [Function.update_of_ne (by decide), hss', hss]
    · refine (congrFun hsegs x).trans ?_
      rw [Function.update_of_ne hcode, hdata' x hcode hstackSeg, hdata]

end

/-- A process in the middle of its code, with the selectors that it starts with. -/
def someProcess : Processor where
  reg _ := 7
  seg
    | .cs => 0x1B
    | _ => 0x23
  eip := 0x8048000
  eflags := 0x202
  mem _ := 0

/-- The kernel with all of its segments set up. -/
def someKernelCode : Processor where
  reg _ := 0xC0100000
  seg
    | .cs => 0x08
    | _ => 0x10
  eip := 0xC0000000
  eflags := 0x202
  mem _ := 0

/-- A handler that stores -1 in the `eax` of its frame. -/
def refuseCall : Surroundings where
  callee q := { q with mem := Function.update q.mem (q.reg .esp + 36) (2 ^ 32 - 1) }
  flags n := n

/-- INTERNAL: it does no more than that. -/
theorem refuseCall_handles :
    Handles refuseCall.callee (onWords fun r => { r with eax := 2 ^ 32 - 1 }) 16 := by
  intro q ws hlength hpointer hwords
  match ws, hlength with
  | [ds, edi, esi, ebp, kernEsp, ebx, edx, ecx, eax, intNum, error, eip, cs, eflags, esp, ss], _ =>
    refine ⟨rfl, ⟨rfl, rfl⟩, ?_, rfl⟩
    simp only [refuseCall, onWords, RegistersT.words, WordsAt, and_true] at hwords ⊢
    obtain ⟨h₀, h₁, h₂, h₃, h₄, h₅, h₆, h₇, -, h₉, hA, hB, hC, hD, hE, hF⟩ := hwords
    refine ⟨?_, ?_, ?_, ?_, ?_, ?_, ?_, ?_, Function.update_self _ _ _, ?_, ?_, ?_, ?_, ?_, ?_, ?_⟩ <;>
      (rw [Function.update_of_ne (by omega)]; assumption)

/-- INTERNAL: the process makes a call that does not exist. -/
theorem isr_preserves_unknown :
    let q := (someProcess.interrupt 0x10 0xD0002000 ⟨0x08, 0xC0000000⟩ none).run refuseCall (isr 0x80)
    (∀ x, x ≠ .eax → q.reg x = 7) ∧ q.reg .eax = 2 ^ 32 - 1 ∧ q.eip = 0x8048000 := by
  obtain ⟨hregs, heax, -, heip, -, -, -, -⟩ := @isr_preserves refuseCall someProcess Unit
    (fun _ => none) (fun _ _ _ => none) 0x80 0x10 0xD0002000 ⟨0x08, 0xC0000000⟩ none
    (fun r => { r with eax := 2 ^ 32 - 1 })
    { trapFrame 0x80 0 0xD0002000 someProcess with eax := 2 ^ 32 - 1 } () () (by decide) (by decide)
    (by decide) (by decide) (fun x => by cases x <;> decide) refuseCall_handles rfl rfl
  exact ⟨hregs, heax, heip⟩

/-- INTERNAL: the timer ticks while the kernel is at work. -/
theorem irq_transparent_kernel :
    ((someKernelCode.interrupt 0x10 0xD0002000 ⟨0x08, 0xC0000000⟩ none).run ⟨id, id⟩ (irq 0)).reg =
      someKernelCode.reg :=
  (@irq_transparent ⟨id, id⟩ someKernelCode 0xC0100000 0 0x10 0xD0002000 ⟨0x08, 0xC0000000⟩ 13
    rfl rfl (by decide) (by decide) (fun x => by cases x <;> decide)
    fun _ _ _ _ h => ⟨rfl, ⟨rfl, rfl⟩, h, rfl⟩).1

end LakeOS.Analysis
