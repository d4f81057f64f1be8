import LakeOS.Analysis.StubFrames
import LakeOS.Model.ProcessSwitch

/-!
# Processes return like functions

A process that executes a program waits for it.  Its registers lie on its kernel stack meanwhile, and
it goes on with them when the program exits, with the exit code in `eax`: however many programs that
one has executed in turn.
-/

set_option autoImplicit false

namespace LakeOS.Analysis

open LakeOS.Library LakeOS.Model

/-- A process with the rest of the kernel. -/
structure Running where
  cpu : Processor
  esp0 : ℕ
  kernelStacks : List ℕ

/-- The selector of the kernel's code is in `gate`, and that of its stack `ss0`. -/
structure KernelGate where
  gate : Processor.Gate
  ss0 : ℕ
  ring0 : gate.cs % 4 = 0

/-- The processor in the kernel, when `ISR_handler` is called for a system call. -/
def inKernel (k : KernelGate) (env : Surroundings) (s : Running) : Processor :=
  (s.cpu.interrupt k.ss0 s.esp0 k.gate none).run env ([.pushImm 0, .pushImm 0x80] ++ saveContext)

/-- Two memories have the same frames on some kernel stacks. -/
def SameFrames (kernelStacks : List ℕ) (mem mem' : ℕ → ℕ) : Prop :=
  ∀ k ∈ kernelStacks, ∀ x, frameAt k ≤ x → x < k + kernelStackSize → mem' x = mem x

/-- A kernel stack apart from others. -/
def Apart (kernelStack : ℕ) (kernelStacks : List ℕ) : Prop :=
  ∀ k ∈ kernelStacks, k + kernelStackSize ≤ kernelStack ∨ kernelStack + kernelStackSize ≤ k

/-- A process in user mode, on a kernel stack of its own. -/
structure Wellformed (s : Running) : Prop where
  ring3 : s.cpu.seg .cs % 4 = 3
  segs : ∀ x, s.cpu.seg x < 2 ^ 16
  esp0 : ∀ k ∈ s.kernelStacks.head?, s.esp0 = k + kernelStackSize
  bound : ∀ k ∈ s.kernelStacks, 0 < k ∧ k + kernelStackSize < 2 ^ 32
  apart : s.kernelStacks.Pairwise fun k k' => k + kernelStackSize ≤ k' ∨ k' + kernelStackSize ≤ k

/-- The process computes, faults and makes calls that come back; none of that reaches the frames of
the processes that wait. -/
inductive Computes : Running → Running → Prop where
  | mk {s : Running} {cpu : Processor} (ring3 : cpu.seg .cs % 4 = 3)
      (segs : ∀ x, cpu.seg x < 2 ^ 16) (frames : SameFrames s.kernelStacks.tail s.cpu.mem cpu.mem) :
      Computes s { s with cpu }

/-- The process executes a program.  Until it enters the new context, the kernel leaves the frames
of the processes alone. -/
inductive Executes (k : KernelGate) (env : Surroundings) : Running → Running → Prop where
  | mk {s : Running} {mem : ℕ → ℕ} {cpu : Processor} {kernelStack context eip esp : ℕ}
      (frames : SameFrames s.kernelStacks (inKernel k env s).mem mem)
      (bound : 0 < kernelStack ∧ kernelStack + kernelStackSize < 2 ^ 32)
      (apart : Apart kernelStack s.kernelStacks)
      (ring0 : cpu.seg .cs = k.gate.cs)
      (memory : SameFrames s.kernelStacks
        (executeSwitch kernelStack (newContext eip esp) ⟨mem, s.esp0, s.kernelStacks⟩).mem cpu.mem)
      (argument : cpu.mem (add32 (cpu.reg .esp) 4) = context)
      (low : context + sizeofRegistersT < 2 ^ 32)
      (words : WordsAt cpu.mem context (newContext eip esp).words) :
      Executes k env s
        ⟨cpu.run env enterContext, kernelStack + kernelStackSize, kernelStack :: s.kernelStacks⟩

/-- The process exits, and the one before it is revived.  The kernel leaves the frames of those that
wait alone. -/
inductive Exits (k : KernelGate) (env : Surroundings) (code : ℕ) : Running → Running → Prop where
  | mk {s : Running} {mem : ℕ → ℕ} {cpu : Processor} {new : Switch} {revive : ℕ} {rest : List ℕ}
      (frames : SameFrames s.kernelStacks.tail (inKernel k env s).mem mem)
      (waiting : s.kernelStacks.tail = revive :: rest)
      (revives : exitSwitch code ⟨mem, s.esp0, s.kernelStacks⟩ = some new)
      (ring0 : cpu.seg .cs = k.gate.cs)
      (memory : SameFrames s.kernelStacks.tail new.mem cpu.mem)
      (argument : cpu.mem (add32 (cpu.reg .esp) 4) = frameAt revive) :
      Exits k env code s ⟨cpu.run env enterContext, new.esp0, new.kernelStacks⟩

/-- What happens while a process runs: it computes, and programs that it executes run in turn until
they exit. -/
inductive Runs (k : KernelGate) (env : Surroundings) : Running → Running → Prop where
  | refl (s : Running) : Runs k env s s
  | compute {s s₁ s₂ : Running} (before : Runs k env s s₁) (step : Computes s₁ s₂) : Runs k env s s₂
  | program {s s₁ s₂ s₃ s₄ : Running} {code : ℕ} (before : Runs k env s s₁)
      (starts : Executes k env s₁ s₂) (inside : Runs k env s₂ s₃) (ends : Exits k env code s₃ s₄) :
      Runs k env s s₄

/-- The frames of the processes that wait lie on their kernel stacks. -/
def Suspended (s : Running) (frames : List RegistersT) : Prop :=
  List.Forall₂ (fun k f => WordsAt s.cpu.mem (frameAt k) f.words ∧ f.cs % 4 = 3)
    s.kernelStacks.tail frames

section

variable {k : KernelGate} {env : Surroundings} {s s' : Running} {frames : List RegistersT}

/-- INTERNAL: a frame of 16 words. -/
theorem frameAt_add (kernelStack : ℕ) : frameAt kernelStack + 64 = kernelStack + kernelStackSize := by
  unfold frameAt kernelStackSize sizeofRegistersT
  omega

/-- INTERNAL: frames where the memory is the same. -/
theorem SameFrames.forall₂ {kernelStacks : List ℕ} {mem mem' : ℕ → ℕ}
    (hsame : SameFrames kernelStacks mem mem')
    (hframes : List.Forall₂ (fun k f => WordsAt mem (frameAt k) f.words ∧ f.cs % 4 = 3)
      kernelStacks frames) :
    List.Forall₂ (fun k f => WordsAt mem' (frameAt k) f.words ∧ f.cs % 4 = 3) kernelStacks
      frames := by
  induction hframes with
  | nil => exact List.Forall₂.nil
  | @cons kernelStack f _ _ hframe _ ih =>
    refine List.Forall₂.cons ⟨hframe.1.congr fun x hlow hhigh => ?_, hframe.2⟩
      (ih fun k' hk' => hsame k' (List.mem_cons_of_mem _ hk'))
    have hlength : f.words.length = 16 := rfl
    have hend := frameAt_add kernelStack
    rw [hlength] at hhigh
    exact hsame kernelStack List.mem_cons_self x hlow (by omega)

/-- INTERNAL: one after the other. -/
theorem SameFrames.trans {kernelStacks : List ℕ} {mem mem' mem'' : ℕ → ℕ}
    (hsame : SameFrames kernelStacks mem mem') (hsame' : SameFrames kernelStacks mem' mem'') :
    SameFrames kernelStacks mem mem'' :=
  fun k hk x hlow hhigh => (hsame' k hk x hlow hhigh).trans (hsame k hk x hlow hhigh)

/-- INTERNAL: **a system call leaves its frame** on the kernel stack of its process, and those of
the others alone. -/
theorem inKernel_frames (hs : Wellformed s) {current : ℕ} {rest : List ℕ}
    (hstacks : s.kernelStacks = current :: rest) :
    WordsAt (inKernel k env s).mem (frameAt current) (trapFrame 0x80 0 s.esp0 s.cpu).words ∧
      SameFrames rest s.cpu.mem (inKernel k env s).mem := by
  have hesp0 : s.esp0 = current + kernelStackSize := hs.esp0 current (by rw [hstacks]; rfl)
  have hbound := hs.bound current (by rw [hstacks]; exact List.mem_cons_self)
  have hsize : kernelStackSize = 0x2000 := rfl
  have hentry : Stack (inKernel k env s)
      ((s.esp0 - sizeofRegistersT) :: (trapFrame 0x80 0 s.esp0 s.cpu).words) s.esp0 ∧
      (inKernel k env s).seg .cs = k.gate.cs ∧
      ∀ x, x < s.esp0 - 68 ∨ s.esp0 ≤ x → (inKernel k env s).mem x = s.cpu.mem x :=
    @isr_entry env s.cpu 0x80 k.ss0 s.esp0 k.gate none (by rw [k.ring0, hs.ring3]; decide) rfl
      (by omega) (by omega) (hs.segs .ds)
  obtain ⟨hstack, -, hmem⟩ := hentry
  have hdepth : (inKernel k env s).reg .esp + 4 * 17 = s.esp0 := hstack.depth
  have hframe := hstack.words.2
  have hend := frameAt_add current
  refine ⟨?_, fun k' hk' x hlow hhigh => hmem x ?_⟩
  · rw [show frameAt current = (inKernel k env s).reg .esp + 4 by omega]
    exact hframe
  · have hapart := hs.apart
    rw [hstacks, List.pairwise_cons] at hapart
    have hend' := frameAt_add k'
    rcases hapart.1 k' hk' with h | h <;> omega

/-- INTERNAL: a frame is resumed from where it lies. -/
theorem enterContext_resumes {p : Processor} {a : ℕ} {r : RegistersT}
    (hargument : p.mem (add32 (p.reg .esp) 4) = a) (hlow : a + 64 < 2 ^ 32)
    (hwords : WordsAt p.mem a r.words) (hprivilege : p.seg .cs % 4 < r.cs % 4) :
    Resumes (p.run env enterContext) r ∧ (p.run env enterContext).mem = p.mem := by
  have hstack : Stack (p.setReg .esp a) r.words (a + 64) :=
    ⟨by rw [Processor.setReg_self]; rfl, hlow, by rw [Processor.setReg_self]; exact hwords⟩
  have hrun : p.run env enterContext = (p.setReg .esp a).run env isrReturn := by
    rw [enterContext, Processor.run_append, ← hargument]
    rfl
  rw [hrun]
  exact isrReturn_resumes hstack hprivilege

/-- INTERNAL: a process that resumes a frame of user mode is in user mode. -/
theorem Resumes.ring3 {q : Processor} {r : RegistersT} (hresumes : Resumes q r)
    (hcs : r.cs % 4 = 3) : q.seg .cs % 4 = 3 ∧ ∀ x, q.seg x < 2 ^ 16 := by
  refine ⟨by rw [hresumes.cs]; omega, fun x => ?_⟩
  by_cases hcode : x = .cs
  · rw [hcode, hresumes.cs]
    exact Nat.mod_lt _ (by decide)
  by_cases hstack : x = .ss
  · rw [hstack, hresumes.ss]
    exact Nat.mod_lt _ (by decide)
  rw [hresumes.data x hcode hstack]
  exact Nat.mod_lt _ (by decide)

/-- INTERNAL: **computing** leaves the processes that wait alone. -/
theorem Computes.suspended (hstep : Computes s s') (hs : Wellformed s)
    (hframes : Suspended s frames) :
    Wellformed s' ∧ Suspended s' frames ∧ s'.kernelStacks = s.kernelStacks := by
  cases hstep with
  | mk ring3 segs same =>
    exact ⟨⟨ring3, segs, hs.esp0, hs.bound, hs.apart⟩, same.forall₂ hframes, rfl⟩

/-- INTERNAL: **executing a program** suspends the process with its frame. -/
theorem Executes.suspended (hstep : Executes k env s s') (hs : Wellformed s)
    (hstacks : s.kernelStacks ≠ []) (hframes : Suspended s frames) :
    Wellformed s' ∧ Suspended s' (trapFrame 0x80 0 s.esp0 s.cpu :: frames) ∧
      s'.kernelStacks.tail = s.kernelStacks := by
  obtain ⟨current, rest, hcons⟩ := List.exists_cons_of_ne_nil hstacks
  obtain ⟨hframe, hothers⟩ := @inKernel_frames k env s hs current rest hcons
  cases hstep with
  | @mk mem cpu kernelStack context eip esp same bound apart ring0 memory argument low words =>
    have huser : (newContext eip esp).cs % 4 = 3 := show (0x1B : ℕ) % 4 = 3 from rfl
    obtain ⟨hresumes, hmem⟩ := @enterContext_resumes env cpu context (newContext eip esp) argument
      low words (by rw [ring0, k.ring0, huser]; decide)
    obtain ⟨hring3, hsegs⟩ := hresumes.ring3 huser
    -- the new kernel stack is apart from the frames
    have hnew : SameFrames s.kernelStacks mem
        (executeSwitch kernelStack (newContext eip esp) ⟨mem, s.esp0, s.kernelStacks⟩).mem := by
      intro k' hk' x hlow hhigh
      have hend := frameAt_add k'
      have hend' := frameAt_add kernelStack
      have hlength : (newContext eip esp).words.length = 16 := rfl
      have hsize : kernelStackSize = 0x2000 := rfl
      rw [executeSwitch]
      dsimp only
      rw [storeWords_outside (by rw [hlength]; rcases apart k' hk' with h | h <;> omega), clearStack,
        if_neg (by rcases apart k' hk' with h | h <;> omega)]
    refine ⟨⟨hring3, hsegs, fun k' hk' => ?_, fun k' hk' => ?_, ?_⟩, ?_, rfl⟩
    · cases hk'
      rfl
    · rcases List.mem_cons.mp hk' with rfl | hk'
      · exact bound
      · exact hs.bound k' hk'
    · exact List.pairwise_cons.mpr ⟨fun k' hk' => (apart k' hk').symm, hs.apart⟩
    · have hall : List.Forall₂ (fun a f => WordsAt (inKernel k env s).mem (frameAt a) f.words ∧
          f.cs % 4 = 3) s.kernelStacks (trapFrame 0x80 0 s.esp0 s.cpu :: frames) := by
        rw [hcons]
        refine List.Forall₂.cons ⟨hframe, hs.ring3⟩ (hothers.forall₂ ?_)
        rw [Suspended, hcons] at hframes
        exact hframes
      have hafter := ((same.trans hnew).trans memory).forall₂ hall
      rw [← hmem] at hafter
      exact hafter

/-- INTERNAL: **an exit** revives the process before with the code in its frame. -/
theorem Exits.revived {code : ℕ} {f : RegistersT} (hstep : Exits k env code s s')
    (hs : Wellformed s) (hframes : Suspended s (f :: frames)) :
    Wellformed s' ∧ Suspended s' frames ∧ s'.kernelStacks = s.kernelStacks.tail ∧
      Resumes s'.cpu { f with eax := code % 2 ^ 32 } := by
  cases hstep with
  | @mk mem cpu new revive rest same waiting revives ring0 memory argument =>
    obtain ⟨dying, hcons⟩ : ∃ dying, s.kernelStacks = dying :: revive :: rest := by
      cases hstacks : s.kernelStacks with
      | nil => rw [hstacks] at waiting; cases waiting
      | cons dying tail =>
        rw [hstacks] at waiting
        exact ⟨dying, by rw [← waiting]; rfl⟩
    obtain ⟨-, hothers⟩ := @inKernel_frames k env s hs dying (revive :: rest) hcons
    have hnew : new = ⟨Function.update mem (frameAt revive + 32) (code % 2 ^ 32),
        revive + kernelStackSize, revive :: rest⟩ := by
      rw [hcons] at revives
      exact (Option.some.inj revives).symm
    rw [waiting] at same memory
    have hbefore := (hothers.trans same).forall₂ (by
      rw [Suspended, waiting] at hframes
      exact hframes)
    obtain ⟨⟨hwords, hcs⟩, hrest⟩ := List.forall₂_cons.mp hbefore
    have hapart := hs.apart
    rw [hcons, List.pairwise_cons, List.pairwise_cons] at hapart
    have hbound := hs.bound revive (by rw [hcons]; exact List.mem_cons_of_mem _ List.mem_cons_self)
    have hend := frameAt_add revive
    -- the exit code in the frame of the process that is revived
    have hcode : WordsAt new.mem (frameAt revive) { f with eax := code % 2 ^ 32 }.words := by
      rw [hnew]
      simp only [RegistersT.words, WordsAt, and_true] at hwords ⊢
      obtain ⟨h₀, h₁, h₂, h₃, h₄, h₅, h₆, h₇, -, h₉, hA, hB, hC, hD, hE, hF⟩ := hwords
      refine ⟨?_, ?_, ?_, ?_, ?_, ?_, ?_, ?_, Function.update_self _ _ _, ?_, ?_, ?_, ?_, ?_, ?_,
        ?_⟩ <;> (rw [Function.update_of_ne (by omega)]; assumption)
    have hcpu : WordsAt cpu.mem (frameAt revive) { f with eax := code % 2 ^ 32 }.words := by
      refine hcode.congr fun x hlow hhigh => memory revive List.mem_cons_self x hlow ?_
      have hlength : { f with eax := code % 2 ^ 32 }.words.length = 16 := rfl
      rw [hlength] at hhigh
      omega
    obtain ⟨hresumes, hmem⟩ := @enterContext_resumes env cpu (frameAt revive)
      { f with eax := code % 2 ^ 32 } argument (by omega) hcpu
      (by rw [ring0, k.ring0]; exact hcs ▸ (by decide : 0 < 3))
    obtain ⟨hring3, hsegs⟩ := hresumes.ring3 hcs
    have hstacks : new.kernelStacks = revive :: rest := by rw [hnew]
    refine ⟨⟨hring3, hsegs, fun k' hk' => ?_, fun k' hk' => ?_, ?_⟩, ?_, ?_, hresumes⟩
    · rw [hstacks] at hk'
      cases hk'
      rw [hnew]
    · rw [hstacks] at hk'
      exact hs.bound k' (by rw [hcons]; exact List.mem_cons_of_mem _ hk')
    · rw [hstacks]
      exact List.pairwise_cons.mpr hapart.2
    · -- the other frames lie elsewhere
      have helse : SameFrames rest mem new.mem := by
        intro k' hk' x hlow hhigh
        rw [hnew]
        have hend' := frameAt_add k'
        have hsize : kernelStackSize = 0x2000 := rfl
        refine Function.update_of_ne ?_ _ _
        rcases hapart.2.1 k' hk' with h | h <;> omega
      have hafter := (helse.trans fun k' hk' => memory k' (List.mem_cons_of_mem _ hk')).forall₂ hrest
      rw [← hmem] at hafter
      rw [Suspended, hstacks]
      exact hafter
    · rw [hstacks, waiting]

/-- INTERNAL: **while a process runs**, the processes before it keep their frames. -/
theorem Runs.suspended (hruns : Runs k env s s') (hs : Wellformed s) (hstacks : s.kernelStacks ≠ [])
    (hframes : Suspended s frames) :
    Wellformed s' ∧ Suspended s' frames ∧ s'.kernelStacks = s.kernelStacks := by
  induction hruns generalizing frames with
  | refl s => exact ⟨hs, hframes, rfl⟩
  | compute _ step ih =>
    obtain ⟨hs₁, hframes₁, hstacks₁⟩ := ih hs hstacks hframes
    obtain ⟨hs₂, hframes₂, hstacks₂⟩ := step.suspended hs₁ hframes₁
    exact ⟨hs₂, hframes₂, hstacks₂.trans hstacks₁⟩
  | program _ starts _ ends ih ih' =>
    obtain ⟨hs₁, hframes₁, hstacks₁⟩ := ih hs hstacks hframes
    obtain ⟨hs₂, hframes₂, hstacks₂⟩ := starts.suspended hs₁ (hstacks₁ ▸ hstacks) hframes₁
    obtain ⟨hs₃, hframes₃, hstacks₃⟩ := ih' hs₂ (fun h => by
      rw [h] at hstacks₂
      exact hstacks (hstacks₁ ▸ hstacks₂.symm)) hframes₂
    obtain ⟨hs₄, hframes₄, hstacks₄, -⟩ := ends.revived hs₃ hframes₃
    exact ⟨hs₄, hframes₄, hstacks₄.trans ((congrArg List.tail hstacks₃).trans
      (hstacks₂.trans hstacks₁))⟩

end

/-- **A process that executes a program goes on when the program exits**, at its next instruction,
with all of its registers as they were and the exit code in `eax`; whatever the program did, and
however many others it executed. -/
theorem exec_returns {k : KernelGate} {env : Surroundings} {s s₁ s₂ s₃ : Running}
    {frames : List RegistersT} {code : ℕ} (hs : Wellformed s) (hstacks : s.kernelStacks ≠ [])
    (hframes : Suspended s frames) (hstarts : Executes k env s s₁) (hruns : Runs k env s₁ s₂)
    (hends : Exits k env code s₂ s₃) :
    (∀ x, x ≠ .eax → s₃.cpu.reg x = s.cpu.reg x) ∧ s₃.cpu.reg .eax = code % 2 ^ 32 ∧
      s₃.cpu.eip = s.cpu.eip ∧ s₃.cpu.eflags = s.cpu.eflags ∧ s₃.cpu.seg .cs = s.cpu.seg .cs ∧
      s₃.cpu.seg .ss = s.cpu.seg .ss ∧ (∀ x, x ≠ .cs → x ≠ .ss → s₃.cpu.seg x = s.cpu.seg .ds) ∧
      s₃.kernelStacks = s.kernelStacks ∧ Suspended s₃ frames ∧ Wellformed s₃ := by
  obtain ⟨hs₁, hframes₁, hstacks₁⟩ := hstarts.suspended hs hstacks hframes
  obtain ⟨hs₂, hframes₂, hstacks₂⟩ := hruns.suspended hs₁ (fun h => by
    rw [h] at hstacks₁
    exact hstacks hstacks₁.symm) hframes₁
  obtain ⟨hs₃, hframes₃, hstacks₃, hresumes⟩ := hends.revived hs₂ hframes₂
  obtain ⟨hregs, heax, heip, heflags, hcs, hss, hdata⟩ := Resumes.back hs.segs hresumes
  exact ⟨hregs, heax, heip, heflags, hcs, hss, hdata,
    hstacks₃.trans ((congrArg List.tail hstacks₂).trans hstacks₁), hframes₃, hs₃⟩

/-- INTERNAL: frames that are not touched. -/
theorem SameFrames.refl (kernelStacks : List ℕ) (mem : ℕ → ℕ) : SameFrames kernelStacks mem mem :=
  fun _ _ _ _ _ => rfl

/-- The process, with its kernel stack. -/
def someRunning : Running := ⟨someProcess, 0xD0002000, [0xD0000000]⟩

/-- The gate of the kernel. -/
def someGate : KernelGate := ⟨⟨0x08, 0xC0000000⟩, 0x10, rfl⟩

/-- The kernel with an argument on its stack. -/
def callsWith (mem : ℕ → ℕ) (a : ℕ) : Processor where
  reg _ := 0x10
  seg _ := 0x08
  eip := 0
  eflags := 0
  mem := Function.update mem 0x14 a

/-- INTERNAL: the argument is there. -/
theorem callsWith_argument (mem : ℕ → ℕ) (a : ℕ) :
    (callsWith mem a).mem (add32 ((callsWith mem a).reg .esp) 4) = a := by
  have hat : add32 ((callsWith mem a).reg .esp) 4 = 0x14 := rfl
  rw [hat]
  exact Function.update_self 0x14 a mem

/-- INTERNAL: the process executes a program that exits with 3. -/
theorem exec_returns_once :
    ∃ s : Running, s.cpu.reg .eax = 3 ∧ s.cpu.reg .esp = 7 ∧ s.cpu.eip = 0x8048000 ∧
      s.kernelStacks = [0xD0000000] := by
  have hs : Wellformed someRunning := by
    refine ⟨rfl, fun x => by cases x <;> decide, fun a ha => ?_, fun a ha => ?_, ?_⟩
    · cases ha
      rfl
    · rw [List.mem_singleton.mp ha]
      decide
    · exact List.pairwise_singleton _ _
  have hframe : frameAt 0xD0000000 = 0xD0001FC0 := rfl
  obtain ⟨switched, hswitched⟩ : ∃ switched, switched = (executeSwitch 0xD0004000
    (newContext 0x8048000 0xBFFFF000)
    ⟨(inKernel someGate ⟨id, id⟩ someRunning).mem, 0xD0002000, [0xD0000000]⟩).mem := ⟨_, rfl⟩
  have hstarts := @Executes.mk someGate ⟨id, id⟩ someRunning
    (inKernel someGate ⟨id, id⟩ someRunning).mem
    (callsWith (storeWords switched 0x100 (newContext 0x8048000 0xBFFFF000).words) 0x100)
    0xD0004000 0x100 0x8048000 0xBFFFF000 (SameFrames.refl _ _) (by decide)
    (fun a ha => by rw [List.mem_singleton.mp ha]; decide) rfl
    (fun a ha x hlow hhigh => by
      rw [List.mem_singleton.mp ha, hframe] at hlow
      rw [callsWith]
      dsimp only
      rw [Function.update_of_ne (by omega), storeWords_outside (by
        change x < 0x100 ∨ 0x100 + 4 * 16 ≤ x
        omega), hswitched]
      rfl)
    (callsWith_argument _ _) (by decide)
    ((wordsAt_storeWords switched 0x100 _).update (by decide))
  obtain ⟨exiting, hexiting⟩ : ∃ exiting, exiting = (⟨(callsWith
    (storeWords switched 0x100 (newContext 0x8048000 0xBFFFF000).words) 0x100).run ⟨id, id⟩
      enterContext, 0xD0004000 + kernelStackSize, [0xD0004000, 0xD0000000]⟩ : Running) := ⟨_, rfl⟩
  have hends := @Exits.mk someGate ⟨id, id⟩ 3 exiting
    (inKernel someGate ⟨id, id⟩ exiting).mem
    (callsWith (Function.update (inKernel someGate ⟨id, id⟩ exiting).mem
      (frameAt 0xD0000000 + 32) 3) (frameAt 0xD0000000))
    ⟨Function.update (inKernel someGate ⟨id, id⟩ exiting).mem (frameAt 0xD0000000 + 32) 3,
      0xD0000000 + kernelStackSize, [0xD0000000]⟩ 0xD0000000 [] (SameFrames.refl _ _)
    (by rw [hexiting]; rfl) (by rw [hexiting]; rfl) rfl
    (fun a ha x hlow hhigh => by
      rw [hexiting] at ha
      rw [List.mem_singleton.mp ha, hframe] at hlow
      rw [callsWith]
      dsimp only
      rw [Function.update_of_ne (by omega)])
    (callsWith_argument _ _)
  obtain ⟨hregs, heax, heip, -, -, -, -, hstacks, -⟩ := exec_returns hs (List.cons_ne_nil _ _)
    List.Forall₂.nil hstarts (hexiting ▸ Runs.refl _) hends
  exact ⟨_, heax, hregs .esp (by decide), heip, hstacks⟩

end LakeOS.Analysis
