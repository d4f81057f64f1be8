import LakeOS.Library.InterruptController
import LakeOS.Model.Pic

/-!
# Which interrupts are delivered

Through the ports, requests are masked, unmasked and ended at the two controllers.  What comes of it
is one set of requests and one of masks: an interrupt takes the first request that is not masked, and
none that is taken keeps a later one from the processor.
-/

set_option autoImplicit false

namespace LakeOS.Analysis

open LakeOS.Library LakeOS.Model

/-- The controllers behind their ports; `other` is read from all other ports. -/
def picPorts (other : ℕ → ℕ) : Ports PicPair where
  write w c :=
    match w with
    | .byte port data =>
      if port = pic1CommandPort then { c with master := c.master.command data }
      else if port = pic1DataPort then { c with master := c.master.data data }
      else if port = pic2CommandPort then { c with slave := c.slave.command data }
      else if port = pic2DataPort then { c with slave := c.slave.data data }
      else c
    | .word _ _ => c
  readByte port c :=
    (if port = pic1DataPort then c.master.imr
    else if port = pic2DataPort then c.slave.imr
    else other port, c)
  readWord port c := (other port, c)
  sleep _ c := c

/-- What happens to the controllers. -/
inductive IrqEvent where
  | raise (irq : ℕ)
  | mask (irq : ℕ)
  | unmask (irq : ℕ)
  | interrupt
deriving DecidableEq

/-- There are sixteen requests. -/
def IrqEvent.Valid : IrqEvent → Prop
  | .raise irq | .mask irq | .unmask irq => irq < 16
  | .interrupt => True

instance IrqEvent.decidableValid (e : IrqEvent) : Decidable e.Valid :=
  match e with
  | .raise irq | .mask irq | .unmask irq => inferInstanceAs (Decidable (irq < 16))
  | .interrupt => inferInstanceAs (Decidable True)

/-- The event; an interrupt that is taken runs its handler. -/
def IrqEvent.run (other : ℕ → ℕ) (c : PicPair) : IrqEvent → Option ℕ × PicPair
  | .raise irq => (none, c.raise irq)
  | .mask irq => (none, picMask (picPorts other) irq c)
  | .unmask irq => (none, picUnmask (picPorts other) irq c)
  | .interrupt =>
    match c.acknowledge with
    | some (vector, c) => (some vector, irqHandler (picPorts other) (vector - picRemapOffset) c)
    | none => (none, c)

/-- The events, one after the other, with the vectors that are delivered. -/
def irqRun (other : ℕ → ℕ) : List IrqEvent → PicPair → List (Option ℕ) × PicPair
  | [], c => ([], c)
  | e :: es, c =>
    ((e.run other c).1 :: (irqRun other es (e.run other c).2).1,
      (irqRun other es (e.run other c).2).2)

/-! ## Requests and masks -/

/-- The requests there are, and those that are masked. -/
structure Lines where
  requested : ℕ → Bool
  masked : ℕ → Bool

/-- The requests in the order of their priority.  Those from 8 on come in through 2. -/
def priority : List ℕ := [0, 1] ++ ([8, 9, 10, 11, 12, 13, 14, 15] ++ [3, 4, 5, 6, 7])

namespace Lines

/-- The request can be taken. -/
def deliverable (l : Lines) (irq : ℕ) : Bool :=
  l.requested irq && !l.masked irq && (decide (irq < 8) || !l.masked 2)

/-- The request that is taken next. -/
def next (l : Lines) : Option ℕ := priority.find? l.deliverable

/-- The event. -/
def run (l : Lines) : IrqEvent → Option ℕ × Lines
  | .raise irq => (none, { l with requested := Function.update l.requested irq true })
  | .mask irq => (none, { l with masked := Function.update l.masked irq true })
  | .unmask irq => (none, { l with masked := Function.update l.masked irq false })
  | .interrupt =>
    match l.next with
    | some irq => (some irq, { l with requested := Function.update l.requested irq false })
    | none => (none, l)

/-- The events, one after the other, with the requests that are taken. -/
def runs : List IrqEvent → Lines → List (Option ℕ) × Lines
  | [], l => ([], l)
  | e :: es, l => ((l.run e).1 :: (runs es (l.run e).2).1, (runs es (l.run e).2).2)

end Lines

/-- The controllers have these requests and masks, and nothing in service. -/
structure Tracks (c : PicPair) (l : Lines) : Prop where
  masterIdle : c.master.isr = fun _ => false
  slaveIdle : c.slave.isr = fun _ => false
  ready : c.master.icw = 0 ∧ c.slave.icw = 0
  offset : c.master.offset = picRemapOffset ∧ c.slave.offset = picRemapOffset + 8
  masterMask : ∀ i < 8, c.master.imr.testBit i = l.masked i
  slaveMask : ∀ i < 8, c.slave.imr.testBit i = l.masked (8 + i)
  masterRequests : ∀ i < 8, c.master.irr i = l.requested i
  slaveRequests : ∀ i < 8, c.slave.irr i = l.requested (8 + i)

/-- The line is in service, with that of the second controller if it is one of its lines. -/
def serving (c : PicPair) (irq : ℕ) : PicPair :=
  if irq < 8 then { c with master := c.master.serve irq }
  else ⟨{ c.master with isr := Function.update c.master.isr 2 true }, c.slave.serve (irq - 8)⟩

section

variable {c : PicPair} {l : Lines} {other : ℕ → ℕ}

/-- INTERNAL: two predicates that agree on a list. -/
theorem find?_agree {xs : List ℕ} {p q : ℕ → Bool} (hagree : ∀ x ∈ xs, p x = q x) :
    xs.find? p = xs.find? q := by
  induction xs with
  | nil => rfl
  | cons x xs ih =>
    rw [List.find?_cons, List.find?_cons, hagree x List.mem_cons_self,
      ih fun y hy => hagree y (List.mem_cons_of_mem _ hy)]

/-- INTERNAL: the second controller has the requests from 8 on. -/
theorem Tracks.slave (htracks : Tracks c l) :
    ([8, 9, 10, 11, 12, 13, 14, 15].find? fun irq => l.requested irq && !l.masked irq) =
      (c.slave.candidate c.slave.irr).map (8 + ·) := by
  have hlist : [8, 9, 10, 11, 12, 13, 14, 15] = (List.range 8).map (8 + ·) := rfl
  rw [hlist, List.find?_map, Pic.candidate_idle htracks.slaveIdle]
  congr 1
  refine find?_agree fun i hi => ?_
  have hlt := List.mem_range.mp hi
  rw [htracks.slaveMask i hlt, htracks.slaveRequests i hlt]
  rfl

/-- INTERNAL: **the next request** is the one whose vector the controllers give. -/
theorem Tracks.acknowledge (htracks : Tracks c l) :
    c.acknowledge = l.next.map fun irq => (picRemapOffset + irq, serving c irq) := by
  have hrange : List.range 8 = [0, 1] ++ ([2] ++ [3, 4, 5, 6, 7]) := rfl
  have hslave := htracks.slave
  have hcandidate : c.master.candidate c.masterLines =
      ([0, 1].find? l.deliverable).or
        (if (c.slave.candidate c.slave.irr).isSome && !l.masked 2 then some 2
        else [3, 4, 5, 6, 7].find? l.deliverable) := by
    have hagree : ∀ i < 8, i ≠ 2 →
        (c.masterLines i && !c.master.imr.testBit i) = l.deliverable i := by
      intro i hi hne
      rw [PicPair.masterLines, if_neg hne, htracks.masterMask i hi, htracks.masterRequests i hi,
        Lines.deliverable, decide_eq_true hi]
      simp
    rw [Pic.candidate_idle htracks.masterIdle, hrange, List.find?_append, List.find?_append]
    congr 1
    · refine find?_agree fun i hi => hagree i ?_ ?_ <;>
        (simp only [List.mem_cons, List.not_mem_nil, or_false] at hi; omega)
    · rw [show [3, 4, 5, 6, 7].find? (fun i => c.masterLines i && !c.master.imr.testBit i) =
          [3, 4, 5, 6, 7].find? l.deliverable from find?_agree fun i hi => hagree i
            (by simp only [List.mem_cons, List.not_mem_nil, or_false] at hi; omega)
            (by simp only [List.mem_cons, List.not_mem_nil, or_false] at hi; omega)]
      rw [List.find?_cons, htracks.masterMask 2 (by decide), PicPair.masterLines, if_pos rfl]
      cases (c.slave.candidate c.slave.irr).isSome && !l.masked 2 <;> rfl
  have hhigh : [8, 9, 10, 11, 12, 13, 14, 15].find? l.deliverable =
      if l.masked 2 then none else (c.slave.candidate c.slave.irr).map (8 + ·) := by
    rw [← hslave]
    by_cases hmask : l.masked 2
    · rw [if_pos hmask, List.find?_eq_none]
      intro i hi
      have hge : ¬i < 8 := by
        simp only [List.mem_cons, List.not_mem_nil, or_false] at hi
        omega
      simp [Lines.deliverable, hmask, hge]
    · rw [if_neg hmask]
      exact find?_agree fun i _ => by simp [Lines.deliverable, hmask]
  have hnext : l.next = ([0, 1].find? l.deliverable).or
      ((if l.masked 2 then none else (c.slave.candidate c.slave.irr).map (8 + ·)).or
        ([3, 4, 5, 6, 7].find? l.deliverable)) := by
    rw [Lines.next, priority, List.find?_append, List.find?_append, hhigh]
  -- a line of the first controller
  have hfirst : ∀ xs : List ℕ, (∀ i ∈ xs, i < 8 ∧ i ≠ 2) → ∀ i, xs.find? l.deliverable = some i →
      i < 8 ∧ i ≠ 2 := fun xs hxs i hi => hxs i (List.mem_of_find?_eq_some hi)
  unfold PicPair.acknowledge
  rw [hcandidate, hnext]
  cases hlow : [0, 1].find? l.deliverable with
  | some i =>
    obtain ⟨hi, hne⟩ := hfirst [0, 1] (by simp) i hlow
    simp [hne, hi, serving, htracks.offset.1]
  | none =>
    by_cases hmask : l.masked 2
    · cases hhigh' : [3, 4, 5, 6, 7].find? l.deliverable with
      | some i =>
        obtain ⟨hi, hne⟩ := hfirst [3, 4, 5, 6, 7] (by simp) i hhigh'
        simp [hmask, hne, hi, serving, htracks.offset.1]
      | none => simp [hmask]
    · cases hslave' : c.slave.candidate c.slave.irr with
      | some j => simp [hmask, serving, htracks.offset.2, Nat.add_assoc]
      | none =>
        cases hhigh' : [3, 4, 5, 6, 7].find? l.deliverable with
        | some i =>
          obtain ⟨hi, hne⟩ := hfirst [3, 4, 5, 6, 7] (by simp) i hhigh'
          simp [hmask, hne, hi, serving, htracks.offset.1]
        | none => simp [hmask]

/-- INTERNAL: the mask with one bit more or less. -/
theorem mask_testBit {mask bit i : ℕ} (hbit : bit < 8) (hi : i < 8) :
    ((mask ||| 1 <<< bit) % 2 ^ 8).testBit i = (mask.testBit i || decide (i = bit)) ∧
      ((mask &&& (2 ^ 32 - 1 - 1 <<< bit)) % 2 ^ 8).testBit i =
        (mask.testBit i && !decide (i = bit)) := by
  have hone : ∀ j, (1 <<< bit : ℕ).testBit j = decide (j = bit) := by
    intro j
    rw [Nat.one_shiftLeft, Nat.testBit_two_pow]
    exact decide_eq_decide.mpr eq_comm
  have hsmall : (1 <<< bit : ℕ) < 2 ^ 32 := by
    rw [Nat.one_shiftLeft]
    exact Nat.pow_lt_pow_right (by decide) (by omega)
  refine ⟨?_, ?_⟩
  · rw [Nat.testBit_mod_two_pow, Nat.testBit_or, hone]
    simp [hi]
  · rw [Nat.testBit_mod_two_pow, Nat.testBit_and,
      show 2 ^ 32 - 1 - 1 <<< bit = 2 ^ 32 - (1 <<< bit + 1) by omega,
      Nat.testBit_two_pow_sub_succ hsmall, hone]
    simp [hi, show i < 32 by omega]

/-- INTERNAL: **a mask is written** for one request. -/
theorem Tracks.setMask (htracks : Tracks c l) {irq : ℕ} (hirq : irq < 16) {masked : Bool}
    {f : ℕ → ℕ → ℕ}
    (hf : ∀ mask bit i, bit < 8 → i < 8 →
      (f mask bit).testBit i = if i = bit then masked else mask.testBit i) :
    Tracks ((picPorts other).write (.byte (picPort irq).1
        (f ((picPorts other).readByte (picPort irq).1 c).1 (picPort irq).2)) c)
      { l with masked := Function.update l.masked irq masked } := by
  have hready := htracks.ready
  by_cases hlow : irq < 8
  · have hport : picPort irq = (pic1DataPort, irq) := if_pos hlow
    have hwrite : (picPorts other).write (.byte (picPort irq).1
        (f ((picPorts other).readByte (picPort irq).1 c).1 (picPort irq).2)) c =
        { c with master := { c.master with imr := f c.master.imr irq } } := by
      simp only [hport, picPorts, Pic.data, hready.1]
      rfl
    rw [hwrite]
    refine ⟨htracks.masterIdle, htracks.slaveIdle, hready, htracks.offset, fun i hi => ?_,
      fun i hi => ?_, htracks.masterRequests, htracks.slaveRequests⟩
    · dsimp only
      rw [hf _ _ _ hlow hi, htracks.masterMask i hi, Function.update_apply]
    · dsimp only
      rw [Function.update_of_ne (by omega)]
      exact htracks.slaveMask i hi
  · have hport : picPort irq = (pic2DataPort, irq - 8) := if_neg hlow
    have hwrite : (picPorts other).write (.byte (picPort irq).1
        (f ((picPorts other).readByte (picPort irq).1 c).1 (picPort irq).2)) c =
        { c with slave := { c.slave with imr := f c.slave.imr (irq - 8) } } := by
      simp only [hport, picPorts, Pic.data, hready.2]
      rfl
    rw [hwrite]
    refine ⟨htracks.masterIdle, htracks.slaveIdle, hready, htracks.offset, fun i hi => ?_,
      fun i hi => ?_, htracks.masterRequests, htracks.slaveRequests⟩
    · dsimp only
      rw [Function.update_of_ne (by omega)]
      exact htracks.masterMask i hi
    · dsimp only
      rw [hf _ _ _ (by omega) hi, htracks.slaveMask i hi, Function.update_apply]
      simp only [show i = irq - 8 ↔ 8 + i = irq by omega]

/-- INTERNAL: **every handler ends its interrupt**, at both controllers if it came through both. -/
theorem Tracks.handled (htracks : Tracks c l) {irq : ℕ} (hirq : irq < 16) :
    Tracks (irqHandler (picPorts other) irq (serving c irq))
      { l with requested := Function.update l.requested irq false } := by
  -- all handlers come down to one end of an interrupt
  have hhandler : irqHandler (picPorts other) irq (serving c irq) =
      picEndOfInt (picPorts other) irq (serving c irq) := by
    match irq with
    | 0 => rfl
    | 1 =>
      unfold irqHandler
      dsimp only
      split_ifs <;> rfl
    | 2 | 3 | 4 | 5 | 6 => rfl
    | _ + 7 => rfl
  rw [hhandler]
  by_cases hlow : irq < 8
  · have hend : picEndOfInt (picPorts other) irq (serving c irq) =
        { c with master := { c.master.serve irq with isr := fun _ => false } } := by
      rw [picEndOfInt, if_neg (by omega), serving, if_pos hlow]
      have heoi := @Pic.eoi_serve (c.master.serve irq) irq hlow (by
        rw [Pic.serve, htracks.masterIdle])
      change { c with master := (c.master.serve irq).eoi } = _
      rw [heoi]
    rw [hend]
    refine ⟨rfl, htracks.slaveIdle, htracks.ready, htracks.offset, htracks.masterMask,
      htracks.slaveMask, fun i hi => ?_, fun i hi => ?_⟩
    · simp only [Pic.serve, Function.update_apply, htracks.masterRequests i hi]
    · dsimp only
      rw [Function.update_of_ne (by omega)]
      exact htracks.slaveRequests i hi
  · have hend : picEndOfInt (picPorts other) irq (serving c irq) =
        ⟨{ c.master with isr := fun _ => false },
          { c.slave.serve (irq - 8) with isr := fun _ => false }⟩ := by
      rw [picEndOfInt, if_pos (by omega), serving, if_neg hlow]
      have hslave := @Pic.eoi_serve (c.slave.serve (irq - 8)) (irq - 8) (by omega) (by
        rw [Pic.serve, htracks.slaveIdle])
      have hmaster := @Pic.eoi_serve { c.master with isr := Function.update c.master.isr 2 true } 2
        (by decide) (by rw [htracks.masterIdle])
      change (⟨Pic.eoi { c.master with isr := Function.update c.master.isr 2 true },
        (c.slave.serve (irq - 8)).eoi⟩ : PicPair) = _
      rw [hslave, hmaster]
    rw [hend]
    refine ⟨rfl, rfl, htracks.ready, htracks.offset, htracks.masterMask, htracks.slaveMask,
      fun i hi => ?_, fun i hi => ?_⟩
    · dsimp only
      rw [Function.update_of_ne (by omega)]
      exact htracks.masterRequests i hi
    · simp only [Pic.serve, Function.update_apply, htracks.slaveRequests i hi,
        show i = irq - 8 ↔ 8 + i = irq by omega]

/-- INTERNAL: **one event** at the controllers is the event on the requests and masks. -/
theorem Tracks.event (htracks : Tracks c l) {e : IrqEvent} (he : e.Valid) :
    (e.run other c).1 = (l.run e).1.map (picRemapOffset + ·) ∧
      Tracks (e.run other c).2 (l.run e).2 := by
  cases e with
  | raise irq =>
    refine ⟨rfl, ?_⟩
    simp only [IrqEvent.run, Lines.run, PicPair.raise]
    have hirq : irq < 16 := he
    by_cases hlow : irq < 8
    · rw [if_pos hlow]
      refine ⟨htracks.masterIdle, htracks.slaveIdle, htracks.ready, htracks.offset,
        htracks.masterMask, htracks.slaveMask, fun i hi => ?_, fun i hi => ?_⟩
      · simp only [Function.update_apply, htracks.masterRequests i hi]
      · dsimp only
        rw [Function.update_of_ne (by omega)]
        exact htracks.slaveRequests i hi
    · rw [if_neg hlow]
      refine ⟨htracks.masterIdle, htracks.slaveIdle, htracks.ready, htracks.offset,
        htracks.masterMask, htracks.slaveMask, fun i hi => ?_, fun i hi => ?_⟩
      · dsimp only
        rw [Function.update_of_ne (by omega)]
        exact htracks.masterRequests i hi
      · simp only [Function.update_apply, htracks.slaveRequests i hi,
          show i = irq - 8 ↔ 8 + i = irq by omega]
  | mask irq =>
    refine ⟨rfl, htracks.setMask he (f := fun mask bit => (mask ||| 1 <<< bit) % 2 ^ 8)
      fun mask bit i hbit hi => ?_⟩
    rw [(mask_testBit hbit hi).1]
    by_cases hsame : i = bit <;> simp [hsame]
  | unmask irq =>
    refine ⟨rfl, htracks.setMask he (f := fun mask bit => (mask &&& (2 ^ 32 - 1 - 1 <<< bit)) % 2 ^ 8)
      fun mask bit i hbit hi => ?_⟩
    rw [(mask_testBit hbit hi).2]
    by_cases hsame : i = bit <;> simp [hsame]
  | interrupt =>
    simp only [IrqEvent.run, Lines.run, htracks.acknowledge]
    cases hnext : l.next with
    | none => exact ⟨rfl, htracks⟩
    | some irq =>
      have hirq : irq < 16 := by
        have hmem := List.mem_of_find?_eq_some hnext
        simp only [priority, List.cons_append, List.nil_append, List.mem_cons, List.not_mem_nil,
          or_false] at hmem
        omega
      refine ⟨rfl, ?_⟩
      simp only [Option.map_some, Nat.add_sub_cancel_left]
      exact htracks.handled hirq

/-- INTERNAL: **after `PIC_configure`** there are no requests, and all are masked. -/
theorem tracks_configured (c : PicPair) :
    Tracks ((picPorts other).writes (picConfigure picRemapOffset (picRemapOffset + 8)) c)
      ⟨fun _ => false, fun _ => true⟩ := by
  refine ⟨rfl, rfl, ⟨rfl, rfl⟩, ⟨rfl, rfl⟩, fun i hi => ?_, fun i hi => ?_, fun _ _ => rfl,
    fun _ _ => rfl⟩
  all_goals
    change (0xFF : ℕ).testBit i = true
    rw [show (0xFF : ℕ) = 2 ^ 8 - 1 from rfl, Nat.testBit_two_pow_sub_one]
    exact decide_eq_true hi

end

/-- **The interrupts that are delivered** after the controllers are set up, in any run of requests,
masks and interrupts, are those of one set of requests with one set of masks: always the first that
is not masked, and none is kept back by one that was taken before. -/
theorem irqRun_refines (other : ℕ → ℕ) (c : PicPair) (es : List IrqEvent)
    (hes : ∀ e ∈ es, e.Valid) :
    (irqRun other es
        ((picPorts other).writes (picConfigure picRemapOffset (picRemapOffset + 8)) c)).1 =
      (Lines.runs es ⟨fun _ => false, fun _ => true⟩).1.map (Option.map (picRemapOffset + ·)) := by
  have hrun : ∀ (es : List IrqEvent) (c : PicPair) (l : Lines), (∀ e ∈ es, e.Valid) → Tracks c l →
      (irqRun other es c).1 = (Lines.runs es l).1.map (Option.map (picRemapOffset + ·)) := by
    intro es
    induction es with
    | nil => exact fun _ _ _ _ => rfl
    | cons e es ih =>
      intro c l hes htracks
      obtain ⟨hfirst, hnext⟩ := @Tracks.event c l other htracks e (hes e List.mem_cons_self)
      rw [irqRun, Lines.runs, List.map_cons, hfirst,
        ih _ _ (fun e' he' => hes e' (List.mem_cons_of_mem _ he')) hnext]
  exact hrun es _ _ hes (tracks_configured c)

/-- Controllers with everything in service. -/
def busyControllers : PicPair :=
  ⟨⟨0, fun _ => false, fun _ => true, 0, 0⟩, ⟨0, fun _ => false, fun _ => true, 0, 0⟩⟩

/-- INTERNAL: the keyboard and the timer are let through, and the mouse is not, for `IRQ2` is still
masked. -/
theorem irqRun_refines_mouse :
    (irqRun (fun _ => 0) [.unmask 1, .unmask 0, .unmask 12, .raise 12, .raise 1, .raise 0,
        .interrupt, .interrupt, .interrupt]
        ((picPorts fun _ => 0).writes (picConfigure picRemapOffset (picRemapOffset + 8))
          busyControllers)).1 =
      [none, none, none, none, none, none, some 0x20, some 0x21, none] :=
  (irqRun_refines (fun _ => 0) busyControllers [.unmask 1, .unmask 0, .unmask 12, .raise 12, .raise 1, .raise 0,
    .interrupt, .interrupt, .interrupt] (by decide)).trans (by decide)

/-- INTERNAL: an event lets no request through but the one that it unmasks. -/
theorem Lines.run_masked {l : Lines} {e : IrqEvent} {i : ℕ} (h : (l.run e).2.masked i = false) :
    l.masked i = false ∨ e = .unmask i := by
  cases e with
  | raise _ => exact Or.inl h
  | mask j =>
    by_cases hj : i = j
    · simp only [Lines.run, hj, Function.update_self] at h
      cases h
    · simp only [Lines.run, Function.update_of_ne hj] at h
      exact Or.inl h
  | unmask j =>
    by_cases hj : i = j
    · exact Or.inr (by rw [hj])
    · simp only [Lines.run, Function.update_of_ne hj] at h
      exact Or.inl h
  | interrupt =>
    simp only [Lines.run] at h
    cases hn : l.next with
    | some _ => rw [hn] at h; exact Or.inl h
    | none => rw [hn] at h; exact Or.inl h

/-- INTERNAL: a request that is taken is let through, and so is `2` if it comes in there. -/
theorem Lines.run_taken {l : Lines} {e : IrqEvent} {irq : ℕ} (h : (l.run e).1 = some irq) :
    l.masked irq = false ∧ (irq < 8 ∨ l.masked 2 = false) := by
  cases e with
  | interrupt =>
    simp only [Lines.run] at h
    cases hn : l.next with
    | none => rw [hn] at h; cases h
    | some taken =>
      rw [hn] at h
      cases h
      have hdeliverable := List.find?_some hn
      simp only [Lines.deliverable, Bool.and_eq_true, Bool.not_eq_true', Bool.or_eq_true,
        decide_eq_true_eq] at hdeliverable
      exact ⟨hdeliverable.1.2, hdeliverable.2⟩
  | raise _ => cases h
  | mask _ => cases h
  | unmask _ => cases h

/-- INTERNAL: over a run, what is let through was unmasked before. -/
theorem Lines.runs_unmasked {es : List IrqEvent} {l : Lines} {unmasked : ℕ → Prop}
    (hl : ∀ i, l.masked i = false → unmasked i) {k irq : ℕ}
    (hirq : (Lines.runs es l).1[k]? = some (some irq)) :
    (unmasked irq ∨ IrqEvent.unmask irq ∈ es.take k) ∧
      (irq < 8 ∨ unmasked 2 ∨ IrqEvent.unmask 2 ∈ es.take k) := by
  induction es generalizing l unmasked k with
  | nil => cases hirq
  | cons e es ih =>
    cases k with
    | zero =>
      rw [Lines.runs, List.getElem?_cons_zero, Option.some_inj] at hirq
      obtain ⟨hmask, hcascade⟩ := Lines.run_taken hirq
      exact ⟨Or.inl (hl irq hmask), hcascade.imp_right fun h => Or.inl (hl 2 h)⟩
    | succ k =>
      rw [Lines.runs, List.getElem?_cons_succ] at hirq
      rw [List.take_succ_cons]
      have hnext : ∀ i, (l.run e).2.masked i = false → unmasked i ∨ e = .unmask i :=
        fun i hi => (Lines.run_masked hi).imp_left (hl i)
      have hmem : ∀ i, (unmasked i ∨ e = .unmask i) ∨ IrqEvent.unmask i ∈ es.take k →
          unmasked i ∨ IrqEvent.unmask i ∈ e :: es.take k := by
        rintro i ((h | rfl) | h)
        · exact Or.inl h
        · exact Or.inr List.mem_cons_self
        · exact Or.inr (List.mem_cons_of_mem e h)
      obtain ⟨hmask, hcascade⟩ := ih hnext hirq
      exact ⟨hmem irq hmask, hcascade.imp_right (hmem 2)⟩

/-- **Only requests that were unmasked before are delivered**, and none of the second controller
unless `IRQ2` was unmasked before too: to unmask one of those alone does nothing. -/
theorem irqRun_unmasked (other : ℕ → ℕ) (c : PicPair) (es : List IrqEvent)
    (hes : ∀ e ∈ es, e.Valid) {k vector : ℕ}
    (hvector : (irqRun other es
      ((picPorts other).writes (picConfigure picRemapOffset (picRemapOffset + 8)) c)).1[k]? =
        some (some vector)) :
    ∃ irq, vector = picRemapOffset + irq ∧ IrqEvent.unmask irq ∈ es.take k ∧
      (irq < 8 ∨ IrqEvent.unmask 2 ∈ es.take k) := by
  rw [irqRun_refines other c es hes, List.getElem?_map, Option.map_eq_some_iff] at hvector
  obtain ⟨taken, htaken, heq⟩ := hvector
  rw [Option.map_eq_some_iff] at heq
  obtain ⟨irq, rfl, rfl⟩ := heq
  obtain ⟨hmask, hcascade⟩ := @Lines.runs_unmasked es _ (fun _ => False)
    (fun _ h => absurd h Bool.true_eq_false.mp) k irq htaken
  refine ⟨irq, rfl, hmask.resolve_left id, hcascade.imp_right fun h => h.resolve_left id⟩

/-- INTERNAL: the keyboard. -/
theorem irqRun_unmasked_keyboard :
    ∃ irq, 0x21 = picRemapOffset + irq ∧
      IrqEvent.unmask irq ∈ [IrqEvent.unmask 1, .raise 1, .interrupt].take 2 ∧
      (irq < 8 ∨ IrqEvent.unmask 2 ∈ [IrqEvent.unmask 1, .raise 1, .interrupt].take 2) :=
  irqRun_unmasked (fun _ => 0) busyControllers [.unmask 1, .raise 1, .interrupt] (by decide)
    (by decide)

end LakeOS.Analysis
