import LakeOS.Analysis.UserBlocks

/-!
# Runs of `mmap` and `munmap`

The list of a process should stay well-formed under the two system calls, whatever the
process asks for.  It does under the calls that `CallOk` describes; the others are

* requests whose length rounds to 0, which enter an empty block,
* fixed requests that meet a block or leave user memory, and those at the start of the
  first block, where `umap_pages` drops the whole list,
* the first request of an empty list when it is longer than user memory,
* requests for a file whose seek fails when their block is the last one: the undo of
  `sys_mmap` follows a `NULL` link,
* a `munmap` that begins inside the first block: `umm_split_block` follows a `NULL` link.
-/

set_option autoImplicit false

namespace LakeOS.Analysis

open LakeOS.Library LakeOS.Model

variable {σ φ : Type} (pages : PageOps σ) (files : FileOps φ)

/-- The system calls, with the arguments of the process. -/
inductive UserCall where
  | mmap (addr length : BitVec 32) (prot flags fd : ℕ) (offset : BitVec 32)
  | munmap (addr length : BitVec 32)

/-- The call on a state: what it returns and the state afterwards. -/
def UserCall.run : UserCall → UserState σ φ → Option (ℕ × UserState σ φ)
  | .mmap addr length prot flags fd offset =>
      sysMmap pages files addr.toNat length.toNat prot flags fd offset.toNat
  | .munmap addr length => sysMunmap pages addr.toNat length.toNat

/-- The addresses that a call names itself: a request without `MAP_FIXED` names none. -/
def UserCall.range : UserCall → ℕ × ℕ
  | .mmap addr length _ flags _ _ =>
      if hasFlag flags syscallMmapFlagFixed then
        (addr.toNat, addr.toNat + roundLength length.toNat)
      else (0, 0)
  | .munmap addr length => (addr.toNat, addr.toNat + roundLength length.toNat)

/-- A `mmap` that does not fail returns a block of the requested length. -/
def UserCall.Mapped (res : ℕ) (blocks : List UmmBlock) : UserCall → Prop
  | .mmap _ length _ _ _ _ => res ≠ 0 → res ≠ mapFailed →
      ∃ b ∈ blocks, b.start = res ∧ length.toNat ≤ b.len
  | .munmap _ _ => True

/-- What a call should do. -/
def CallKeeps (c : UserCall) (u : UserState σ φ) : Prop :=
  ∃ res u', c.run pages files u = some (res, u') ∧ WellFormed u'.blocks ∧
    KeepsOutside c.range.1 c.range.2 u.blocks u'.blocks ∧ c.Mapped res u'.blocks

/-- The undo of `sys_mmap` does not run, or finds the block before the end of the list. -/
def UndoOk (length flags fd offset start : ℕ) (u : UserState σ φ) : Prop :=
  hasFlag flags syscallMmapFlagAnonymous = true ∨
    (mmapFile files fd offset length u.files).1 = true ∨ u.blocks = [] ∨
    ∃ b ∈ u.blocks, start ≤ b.start

/-- A fixed range is free, or it replaces the whole list. -/
def FixedOk (blocks : List UmmBlock) (lo hi : ℕ) : Prop :=
  hi ≤ userMemoryEnd ∧
    (FreeRange blocks lo hi ∨
      blocks.head?.map UmmBlock.start = some lo ∧ ∀ b ∈ blocks, b.start + b.len ≤ hi)

/-- The calls under which the list stays well-formed. -/
def CallOk (c : UserCall) (u : UserState σ φ) : Prop :=
  match c with
  | .mmap addr length _ flags fd offset =>
      addr.toNat % 0x1000 = 0 →
        (0 < length.toNat ∧ length.toNat ≤ 0xFFFFF000) ∧
        if hasFlag flags syscallMmapFlagFixed then
          FixedOk u.blocks addr.toNat (addr.toNat + roundLength length.toNat) ∧
            UndoOk files length.toNat flags fd offset.toNat addr.toNat u
        else
          (u.blocks = [] → roundLength length.toNat ≤ userMemoryEnd) ∧
            ∀ start ∈ firstFitStart (roundLength length.toNat) u.blocks,
              UndoOk files length.toNat flags fd offset.toNat start u
  | .munmap addr length =>
      addr.toNat % 0x1000 = 0 → 0 < roundLength length.toNat →
        addr.toNat + roundLength length.toNat < 2 ^ 32 → NoSplit u.blocks addr.toNat

theorem roundLength_spec {length : ℕ} (hpos : 0 < length) (hle : length ≤ 0xFFFFF000) :
    0x1000 ∣ roundLength length ∧ length ≤ roundLength length ∧ roundLength length < 2 ^ 32 := by
  have hadd : add32 length 0xFFF = length + 0xFFF := add32_eq (by omega)
  unfold roundLength
  rw [hadd]
  omega

variable {u : UserState σ φ} {as bs blocks : List UmmBlock} {new : UmmBlock}

/-- INTERNAL: the list with a block of a range that is free or replaces the whole list.
SRCLINE: umm.c:22-40 -/
theorem insertBlock_fixed (h : WellFormed blocks) (hnew : PageBlock new)
    (hok : FixedOk blocks new.start (new.start + new.len)) :
    ∃ as bs, insertBlock new blocks = as ++ new :: bs ∧ WellFormed (as ++ new :: bs) ∧
      KeepsOutside new.start (new.start + new.len) blocks (as ++ new :: bs) ∧
      (FreeRange blocks new.start (new.start + new.len) → ∀ b ∈ blocks, b ∈ as ++ new :: bs) ∧
      (as ≠ [] → blocks = as ++ bs) := by
  rcases hok.2 with hfree | ⟨hfirst, hcover⟩
  · obtain ⟨as, bs, rfl, hins, -, -⟩ := insertBlock_spec h.ordered hnew.len_pos hfree
    obtain ⟨hwf, hmem⟩ := insertBlock_wellFormed h hnew hfree
    rw [hins] at hwf hmem
    have hsub : ∀ b ∈ as ++ bs, b ∈ as ++ new :: bs := fun b hb => (hmem b).mpr (.inr hb)
    exact ⟨as, bs, hins, hwf, .of_subset hsub, fun _ => hsub, fun _ => rfl⟩
  · cases blocks with
    | nil => simp at hfirst
    | cons first rest =>
        have hstart : first.start = new.start := by simpa using hfirst
        have hins : insertBlock new (first :: rest) = [new] := by
          rw [insertBlock, if_neg (by omega), if_neg (by omega)]
        have hlen := (h.pages first List.mem_cons_self).len_pos
        have hmeet : ¬ FreeRange (first :: rest) new.start (new.start + new.len) := by
          intro hfree
          have := hfree first List.mem_cons_self
          have := hnew.len_pos
          omega
        refine ⟨[], [], hins, wellFormed_singleton hnew, ?_, fun hfree => absurd hfree hmeet, by simp⟩
        have hrest := (wellFormed_cons.mp h).2.2
        have hge : ∀ b ∈ first :: rest, new.start ≤ b.start := by
          refine List.forall_mem_cons.mpr ⟨by omega, fun b hb => ?_⟩
          have := hrest b hb
          omega
        intro b hb
        have h₁ := hge b hb
        have h₂ := hcover b hb
        have h₃ := (h.pages b hb).len_pos
        refine ⟨fun hout => by omega, fun x hx hout => ?_⟩
        have hlo : b.start ≤ x := hx.1
        have hhi : x < b.start + b.len := hx.2
        omega

/-- INTERNAL: filling the pages, or undoing the mapping, of a block on the list.
SRCLINE: sys.c:124-147 -/
theorem mmapFill_spec {length flags fd offset : ℕ} {s : σ} {f : φ}
    (hwf : WellFormed (as ++ new :: bs))
    (hundo : hasFlag flags syscallMmapFlagAnonymous = true ∨
      (mmapFile files fd offset length f).1 = true ∨ as = [] ∨ bs ≠ []) :
    ∃ res u', mmapFill pages files new.start length flags fd offset ⟨as ++ new :: bs, s, f⟩ =
        some (res, u') ∧
      (u'.blocks = as ++ new :: bs ∧ (res = new.start ∨ res = mapFailed) ∨
        as ≠ [] ∧ u'.blocks = as ++ bs ∧ res = mapFailed) := by
  unfold mmapFill
  split
  next => exact ⟨_, _, rfl, .inl ⟨rfl, .inr rfl⟩⟩
  next =>
  split
  next => exact ⟨_, _, rfl, .inl ⟨rfl, .inl rfl⟩⟩
  next hanon =>
  simp only
  split
  next => exact ⟨_, _, rfl, .inl ⟨rfl, .inl rfl⟩⟩
  next hfile =>
    have hundo' : as = [] ∨ bs ≠ [] := by tauto
    cases as with
    | nil =>
        rw [List.nil_append, ummUnmapPages_first pages hwf]
        exact ⟨_, _, rfl, .inl ⟨rfl, .inr rfl⟩⟩
    | cons a as =>
        cases bs with
        | nil => simp at hundo'
        | cons c bs =>
            rw [ummUnmapPages_middle pages hwf]
            exact ⟨_, _, rfl, .inr ⟨by simp, rfl, rfl⟩⟩

/-- INTERNAL: a mapped block, filled or unmapped again.
SRCLINE: sys.c:113-147 -/
theorem mmapFill_keeps {c : UserCall} {length flags fd offset : ℕ} (new : UmmBlock) {s : σ}
    (h : WellFormed u.blocks) (hnew : PageBlock new)
    (hok : FixedOk u.blocks new.start (new.start + new.len))
    (hundo : UndoOk files length flags fd offset new.start u)
    (hrun : c.run pages files u = mmapFill pages files new.start length flags fd offset
      { u with blocks := insertBlock new u.blocks, paging := s })
    (hrange : c.range = (new.start, new.start + new.len) ∨
      FreeRange u.blocks new.start (new.start + new.len))
    (hmapped : ∀ res blocks, (res ≠ mapFailed → res = new.start ∧ new ∈ blocks) →
      c.Mapped res blocks) : CallKeeps pages files c u := by
  obtain ⟨as, bs, hins, hwf, hkeep, hsub, hsplit⟩ := insertBlock_fixed h hnew hok
  have hundo' : hasFlag flags syscallMmapFlagAnonymous = true ∨
      (mmapFile files fd offset length u.files).1 = true ∨ as = [] ∨ bs ≠ [] := by
    by_cases has : as = []
    · exact .inr (.inr (.inl has))
    · rcases hundo with hanon | hfile | hempty | ⟨b, hb, hle⟩
      · exact .inl hanon
      · exact .inr (.inl hfile)
      · simp [hsplit has, has] at hempty
      · refine .inr (.inr (.inr ?_))
        rintro rfl
        rw [hsplit has, List.append_nil] at hb
        exact absurd (hwf.lt_start hb) (by omega)
  obtain ⟨res, u', hfill, hres⟩ := mmapFill_spec pages files (s := s) hwf hundo'
  refine ⟨res, u', by rw [hrun, hins, hfill], ?_⟩
  have hin : new ∈ as ++ new :: bs := by simp
  rcases hres with ⟨hblocks, hres⟩ | ⟨has, hblocks, hres⟩
  · rw [hblocks]
    refine ⟨hwf, ?_, hmapped _ _ fun hne => ⟨hres.resolve_right hne, hin⟩⟩
    cases hrange with
    | inl heq =>
        rw [heq]
        exact hkeep
    | inr hfree => exact .of_subset (hsub hfree)
  · rw [hblocks, ← hsplit has]
    exact ⟨h, .refl _ _ _, hmapped _ _ fun hne => absurd hres hne⟩

/-- INTERNAL: a request for user memory.
SRCLINE: sys.c:106-148 -/
theorem mmap_keeps {addr length : BitVec 32} {prot flags fd : ℕ} {offset : BitVec 32}
    (h : WellFormed u.blocks) (hok : CallOk files (.mmap addr length prot flags fd offset) u) :
    CallKeeps pages files (.mmap addr length prot flags fd offset) u := by
  by_cases halign : addr.toNat % 0x1000 = 0
  · obtain ⟨⟨hpos, hle⟩, hcase⟩ := hok halign
    obtain ⟨hdvd, hlen, hlt⟩ := roundLength_spec hpos hle
    have hmapped : ∀ start res blocks, (res ≠ mapFailed → res = start ∧
        ⟨start, roundLength length.toNat, prot, flags⟩ ∈ blocks) →
        (UserCall.mmap addr length prot flags fd offset).Mapped res blocks := by
      intro start res blocks hres _ hne
      obtain ⟨rfl, hmem⟩ := hres hne
      exact ⟨_, hmem, rfl, hlen⟩
    by_cases hfixed : hasFlag flags syscallMmapFlagFixed = true
    · rw [if_pos hfixed] at hcase
      have hpage : PageBlock ⟨addr.toNat, roundLength length.toNat, prot, flags⟩ :=
        ⟨Nat.dvd_of_mod_eq_zero halign, hdvd, Nat.lt_of_lt_of_le hpos hlen, hcase.1.1⟩
      have hrun : (UserCall.mmap addr length prot flags fd offset).run pages files u =
          mmapFill pages files addr.toNat length.toNat flags fd offset.toNat
            { u with
              blocks := insertBlock ⟨addr.toNat, roundLength length.toNat, prot, flags⟩ u.blocks
              paging := mapPages pages addr.toNat (roundLength length.toNat) prot u.paging } := by
        simp [UserCall.run, sysMmap, halign, hfixed, umapPages]
      have hrange : (UserCall.mmap addr length prot flags fd offset).range =
          (addr.toNat, addr.toNat + roundLength length.toNat) := by
        simp [UserCall.range, hfixed]
      exact mmapFill_keeps pages files _ h hpage hcase.1 hcase.2 hrun (.inl hrange) (hmapped _)
    · rw [if_neg hfixed] at hcase
      have hrun : (UserCall.mmap addr length prot flags fd offset).run pages files u =
          mmapFill pages files
            (uallocPages pages (roundLength length.toNat) prot flags u.blocks u.paging).1
            length.toNat flags fd offset.toNat
            { u with
              blocks := (uallocPages pages (roundLength length.toNat) prot flags
                u.blocks u.paging).2.1
              paging := (uallocPages pages (roundLength length.toNat) prot flags
                u.blocks u.paging).2.2 } := by
        simp [UserCall.run, sysMmap, halign, hfixed]
      unfold uallocPages at hrun
      cases hfit : firstFitStart (roundLength length.toNat) u.blocks with
      | none =>
          simp only [hfit, mmapFill, if_true] at hrun
          exact ⟨_, _, hrun, h, .refl _ _ _, fun _ hne => absurd rfl hne⟩
      | some start =>
          simp only [hfit, umapPages] at hrun
          obtain ⟨hstart, hend, hfree⟩ := firstFitStart_spec h hfit
          have hstop : start + roundLength length.toNat ≤ userMemoryEnd := by
            rcases hend with ⟨hempty, rfl⟩ | hend
            · have := hcase.1 hempty
              omega
            · exact hend
          exact mmapFill_keeps pages files ⟨start, roundLength length.toNat, prot, flags⟩ h
            ⟨hstart, hdvd, Nat.lt_of_lt_of_le hpos hlen, hstop⟩ ⟨hstop, .inl hfree⟩
            (hcase.2 start hfit) hrun (.inr hfree) (hmapped start)
  · refine ⟨0, u, ?_, h, .refl _ _ _, by simp [UserCall.Mapped]⟩
    simp [UserCall.run, sysMmap, halign]

/-- INTERNAL: a request to give user memory back.
SRCLINE: sys.c:150-162 -/
theorem munmap_keeps {addr length : BitVec 32} (h : WellFormed u.blocks)
    (hok : CallOk files (.munmap addr length) u) :
    CallKeeps pages files (.munmap addr length) u := by
  by_cases halign : addr.toNat % 0x1000 = 0
  · have hrun : (UserCall.munmap addr length).run pages files u =
        (ummUnmapRange pages addr.toNat (roundLength length.toNat) u.blocks u.paging).map
          fun r => (0, { u with blocks := r.1, paging := r.2 }) := by
      simp [UserCall.run, sysMunmap, halign]
    by_cases hrange : 0 < roundLength length.toNat ∧
        addr.toNat + roundLength length.toNat < 2 ^ 32
    · have hmul : roundLength length.toNat = roundLength length.toNat / 0x1000 * 0x1000 := by
        unfold roundLength
        omega
      obtain ⟨r, s', hr, hord, hkeep, hfrom, -⟩ := unmapPages_spec pages (s := u.paging)
        (n := roundLength length.toNat / 0x1000) h.ordered (Nat.dvd_of_mod_eq_zero halign)
        (.inr (hok halign hrange.1 hrange.2))
      rw [← hmul] at hkeep
      unfold ummUnmapRange at hrun
      rw [add32_eq hrange.2, hmul, pageRange_add, hr, Option.map_some] at hrun
      exact ⟨_, _, hrun, h.of_comesFrom hord hfrom, hkeep, trivial⟩
    · have hempty : pageRange addr.toNat (add32 addr.toNat (roundLength length.toNat)) = [] := by
        refine pageRange_of_le ?_
        have := addr.isLt
        have : roundLength length.toNat < 2 ^ 32 := by
          have := add32_lt length.toNat 0xFFF
          unfold roundLength
          omega
        unfold add32
        omega
      unfold ummUnmapRange at hrun
      rw [hempty] at hrun
      exact ⟨_, _, hrun, h, .refl _ _ _, trivial⟩
  · refine ⟨mapFailed, u, ?_, h, .refl _ _ _, trivial⟩
    simp [UserCall.run, sysMunmap, halign]

/-- **The list stays well-formed** in every run of calls that meet `CallOk`, and each such
call keeps the blocks outside its own range and returns a block of the requested length
when it does not fail.
SRCLINE: sys.c:106-162 -/
theorem userCalls_keep_list {u₀ u : UserState σ φ} (h : WellFormed u₀.blocks)
    (hrun : Relation.ReflTransGen
      (fun u u' => ∃ c res, CallOk files c u ∧ c.run pages files u = some (res, u')) u₀ u) :
    WellFormed u.blocks ∧ ∀ c, CallOk files c u → CallKeeps pages files c u := by
  have hstep : ∀ {u : UserState σ φ}, WellFormed u.blocks → ∀ c, CallOk files c u →
      CallKeeps pages files c u := by
    intro u h c hok
    cases c with
    | mmap => exact mmap_keeps pages files h hok
    | munmap => exact munmap_keeps pages files h hok
  have hwf : WellFormed u.blocks := by
    induction hrun with
    | refl => exact h
    | tail _ hlast ih =>
        obtain ⟨c, res, hok, hc⟩ := hlast
        obtain ⟨res', u', hc', hwf, -⟩ := hstep ih c hok
        obtain ⟨-, rfl⟩ := Prod.mk.inj (Option.some.inj (hc.symm.trans hc'))
        exact hwf
  exact ⟨hwf, hstep hwf⟩

/-- Page tables and files that nothing is asked of. -/
def noPages : PageOps Unit := ⟨fun _ _ s => s, fun _ s => s, fun _ s => s⟩

def noFiles : FileOps Unit := ⟨fun _ _ _ f => (0, f), fun _ _ f => (0, f)⟩

/-- The first page of a block of two is given back. -/
theorem userCalls_keep_list_two :
    WellFormed [⟨0x2000, 0x1000, 3, 0x22⟩] ∧
      ∀ c, CallOk noFiles c ⟨[⟨0x2000, 0x1000, 3, 0x22⟩], (), ()⟩ →
        CallKeeps noPages noFiles c ⟨[⟨0x2000, 0x1000, 3, 0x22⟩], (), ()⟩ := by
  have hpage : PageBlock ⟨0x1000, 0x2000, 3, 0x22⟩ :=
    ⟨by decide, by decide, by decide, by decide⟩
  have hok : CallOk noFiles (.munmap 0x1000 0x1000) ⟨[⟨0x1000, 0x2000, 3, 0x22⟩], (), ()⟩ := by
    intro _ _ _ b hb
    obtain rfl : ⟨0x1000, 0x2000, 3, 0x22⟩ = b := by simpa using hb
    decide
  have hrange : ummUnmapRange noPages 0x1000 (roundLength 0x1000) [⟨0x1000, 0x2000, 3, 0x22⟩] () =
      some ([⟨0x2000, 0x1000, 3, 0x22⟩], ()) := by decide +kernel
  have hrun : (UserCall.munmap 0x1000 0x1000).run noPages noFiles
      ⟨[⟨0x1000, 0x2000, 3, 0x22⟩], (), ()⟩ =
        some (0, ⟨[⟨0x2000, 0x1000, 3, 0x22⟩], (), ()⟩) := by
    have haddr : (0x1000 : BitVec 32).toNat = 0x1000 := by decide
    simp only [UserCall.run, sysMunmap, haddr, hrange]
    rfl
  have hsteps : Relation.ReflTransGen (fun u u' : UserState Unit Unit => ∃ c res,
      CallOk noFiles c u ∧ c.run noPages noFiles u = some (res, u'))
      ⟨[⟨0x1000, 0x2000, 3, 0x22⟩], (), ()⟩ ⟨[⟨0x2000, 0x1000, 3, 0x22⟩], (), ()⟩ :=
    .single ⟨_, _, hok, hrun⟩
  exact userCalls_keep_list noPages noFiles (wellFormed_singleton hpage) hsteps

/-- A fixed request at the start of the first block: the second block is gone. -/
theorem mmap_fixed_drops_list :
    WellFormed [⟨0x1000, 0x1000, 3, 0x22⟩, ⟨0x5000, 0x1000, 3, 0x22⟩] ∧
      ¬ CallKeeps noPages noFiles (.mmap 0x1000 0x1000 3 0x32 0 0)
        ⟨[⟨0x1000, 0x1000, 3, 0x22⟩, ⟨0x5000, 0x1000, 3, 0x22⟩], (), ()⟩ := by
  constructor
  · refine wellFormed_cons.mpr ⟨wellFormed_singleton ⟨by decide, by decide, by decide, by decide⟩,
      ⟨by decide, by decide, by decide, by decide⟩, by simp⟩
  · rintro ⟨res, u', hrun, -, hkeep, -⟩
    have hrun' : (UserCall.mmap 0x1000 0x1000 3 0x32 0 0).run noPages noFiles
        ⟨[⟨0x1000, 0x1000, 3, 0x22⟩, ⟨0x5000, 0x1000, 3, 0x22⟩], (), ()⟩ =
          some (0x1000, ⟨[⟨0x1000, 0x1000, 3, 0x32⟩], (), ()⟩) := by rfl
    obtain ⟨-, rfl⟩ := Prod.mk.inj (Option.some.inj (hrun.symm.trans hrun'))
    have hlost := (hkeep ⟨0x5000, 0x1000, 3, 0x22⟩ (by simp)).1 (.inr (by decide))
    simp at hlost

end LakeOS.Analysis
