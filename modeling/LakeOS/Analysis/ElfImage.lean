import Mathlib.Data.List.Pairwise
import LakeOS.Analysis.FreshPages

/-!
# The image of a program

What `elf_load_segments` leaves in user memory.  A segment is loaded in whole pages: the
pages from `page_begin` on are mapped to fresh frames, the bytes of the file are copied
and the rest up to `bss_end` is cleared.  As `mem_end` is counted from `page_begin`, the
pages reach to the end of the segment only if it fits (`Fits`), and as every segment maps
its own pages, two segments must not meet in one.

`MapsFresh` is what the loader needs of `vmm_map_page(alloc_page(), ..)`; the page tables
of the kernel have it (`vmmSpace_mapsFresh`).
-/

set_option autoImplicit false

namespace LakeOS.Analysis

open LakeOS.Library LakeOS.Model Vmm

/-! ## Stores -/

/-- INTERNAL: the bytes stored are found behind their addresses, and nothing else changes.
By induction on the bytes: the first one is not stored over, for no other address shows
the same byte of memory. -/
theorem storeBytes_spec {t : ℕ → Option ℕ} {dst : ℕ} {bytes : List Byte} (ram : Ram)
    (hend : dst + bytes.length < 2 ^ 32)
    (hmapped : ∀ v, dst ≤ v → v < dst + bytes.length → t (v / 0x1000) ≠ none)
    (hinj : ∀ v w, dst ≤ v → v < dst + bytes.length → dst ≤ w → w < dst + bytes.length →
      t (v / 0x1000) = t (w / 0x1000) → v / 0x1000 = w / 0x1000) :
    ∃ ram', storeBytes t dst bytes ram = some ram' ∧
      (∀ f o, (∀ v, dst ≤ v → v < dst + bytes.length → t (v / 0x1000) = some f →
        v % 0x1000 ≠ o) → ram' (f, o) = ram (f, o)) ∧
      ∀ j f (hj : j < bytes.length), t ((dst + j) / 0x1000) = some f →
        ram' (f, (dst + j) % 0x1000) = bytes[j] := by
  induction bytes generalizing dst ram with
  | nil => exact ⟨ram, rfl, fun _ _ _ => rfl, fun j f hj => absurd hj (Nat.not_lt_zero j)⟩
  | cons b bytes ih =>
      rw [List.length_cons] at hend hmapped hinj
      obtain ⟨frame, hframe⟩ := Option.ne_none_iff_exists'.mp (hmapped dst le_rfl (by omega))
      have hnext : add32 dst 1 = dst + 1 := add32_eq (by omega)
      obtain ⟨ram', hstore, hother, hbytes⟩ := @ih (dst + 1)
        (Function.update ram (frame, dst % 0x1000) b) (by omega)
        (fun v hv hv' => hmapped v (by omega) (by omega))
        (fun v w hv hv' hw hw' => hinj v w (by omega) (by omega) (by omega) (by omega))
      refine ⟨ram', ?_, fun f o hout => ?_, fun j f hj hf => ?_⟩
      · simp only [storeBytes, hframe, hnext]
        exact hstore
      · rw [List.length_cons] at hout
        rw [hother f o fun v hv hv' => hout v (by omega) (by omega)]
        apply Function.update_of_ne
        intro heq
        obtain ⟨rfl, rfl⟩ := Prod.mk.inj heq
        exact hout dst le_rfl (by omega) hframe rfl
      · cases j with
        | zero =>
            rw [Nat.add_zero] at hf ⊢
            obtain rfl := Option.some.inj (hframe.symm.trans hf)
            rw [hother frame (dst % 0x1000) fun v hv hv' hvf hoff => ?_, Function.update_self]
            · rfl
            · have hpage := hinj v dst (by omega) (by omega) le_rfl (by omega)
                (hvf.trans hframe.symm)
              omega
        | succ j =>
            have hshift : dst + (j + 1) = dst + 1 + j := by omega
            rw [hshift] at hf ⊢
            exact hbytes j f (Nat.lt_of_succ_lt_succ hj) hf

/-! ## Mapping fresh pages -/

/-- The pages of user memory. -/
abbrev userPages : ℕ := 0xC0000

section

variable {σ φ : Type} {space : AddressSpace σ} {Inv : ℕ → σ → Prop}

/-- While `Inv (n + 1)` holds, a page of user memory can be mapped to a frame that no page
shows, which leaves `Inv n` and the other pages as they are. -/
def MapsFresh (space : AddressSpace σ) (Inv : ℕ → σ → Prop) : Prop :=
  ∀ n s page write, page < userPages → Inv (n + 1) s →
    Inv n (space.mapFresh (0x1000 * page) write s) ∧
    ∃ f, (∀ q < userPages, space.translate s q ≠ some f) ∧
      ∀ q < userPages, space.translate (space.mapFresh (0x1000 * page) write s) q =
        if q = page then some f else space.translate s q

/-- The pages of `[a, a + n)` show frames that no other page shows; the others are as they
were. -/
structure FreshRange (space : AddressSpace σ) (a n : ℕ) (s s' : σ) : Prop where
  outside : ∀ q < userPages, (q < a ∨ a + n ≤ q) → space.translate s' q = space.translate s q
  inside : ∀ q, a ≤ q → q < a + n → ∃ f, space.translate s' q = some f ∧
    ∀ q' < userPages, q' ≠ q → space.translate s' q' ≠ some f

theorem mapRange_spec (hspace : MapsFresh space Inv) {a n m : ℕ} (write : Bool) {s : σ}
    (hend : a + n ≤ userPages) (hs : Inv (n + m) s) :
    let s' := (List.range' a n).foldl (fun s q => space.mapFresh (0x1000 * q) write s) s
    Inv m s' ∧ FreshRange space a n s s' := by
  induction n generalizing a s with
  | zero =>
      refine ⟨by simpa using hs, fun q _ _ => rfl, fun q hq hq' => ?_⟩
      omega
  | succ n ih =>
      have ha : a < userPages := by omega
      have hs' : Inv (n + m + 1) s := by
        rwa [show n + 1 + m = n + m + 1 by omega] at hs
      obtain ⟨hinv, f, hfresh, htrans⟩ := hspace (n + m) s a write ha hs'
      obtain ⟨hinv', hrest⟩ := ih (a := a + 1) (by omega) hinv
      rw [List.range'_succ, List.foldl_cons]
      refine ⟨hinv', fun q hq hout => ?_, fun q hq hq' => ?_⟩
      · rw [hrest.outside q hq (by omega), htrans q hq, if_neg (by omega)]
      · by_cases hqa : q = a
        · subst hqa
          have hkeep := hrest.outside q ha (by omega)
          rw [htrans q ha, if_pos rfl] at hkeep
          refine ⟨f, hkeep, fun q' hq'' hne => ?_⟩
          by_cases hin : q + 1 ≤ q' ∧ q' < q + 1 + n
          · obtain ⟨g, hg, hother⟩ := hrest.inside q' hin.1 hin.2
            rw [hg, ← hkeep]
            exact (hother q ha hne.symm).symm
          · rw [hrest.outside q' hq'' (by omega), htrans q' hq'', if_neg hne]
            exact hfresh q' hq''
        · exact hrest.inside q (by omega) (by omega)

/-! ## One segment -/

/-- The first page of a segment. -/
def firstPage (p : ElfPHeader) : ℕ := p.vaddr / 0x1000

/-- The number of pages that the loader maps for a segment. -/
def pageCount (p : ElfPHeader) : ℕ := (p.memSize + 0xFFF) / 0x1000

/-- The segment is in user memory, and has no more bytes in the file than there. -/
def SegmentWellFormed (p : ElfPHeader) : Prop :=
  p.fileSize ≤ p.memSize ∧ p.vaddr + p.memSize ≤ 0xC0000000

/-- The pages that the loader maps, which are counted from `page_begin`, reach to the end
of the segment. -/
def SegmentFits (p : ElfPHeader) : Prop :=
  p.vaddr + p.memSize ≤ 0x1000 * (firstPage p + pageCount p)

/-- The loader maps page `q` for the segment. -/
def HasPage (p : ElfPHeader) (q : ℕ) : Prop := firstPage p ≤ q ∧ q < firstPage p + pageCount p

theorem segment_bounds {p : ElfPHeader} (hwf : SegmentWellFormed p) :
    p.pageBegin = 0x1000 * firstPage p ∧ p.fileEnd = p.vaddr + p.fileSize ∧
      p.bssEnd = 0x1000 * (firstPage p + pageCount p) ∧
      firstPage p + pageCount p ≤ userPages := by
  obtain ⟨hsize, hend⟩ := hwf
  unfold ElfPHeader.bssEnd ElfPHeader.memEnd ElfPHeader.fileEnd ElfPHeader.pageBegin
    firstPage pageCount add32 userPages at *
  omega

/-- What a segment should be afterwards: mapped, with its bytes and zeros behind them. -/
def SegmentLoaded (space : AddressSpace σ) (byte : ℕ → Byte) (i : UserImage σ φ)
    (p : ElfPHeader) : Prop :=
  ∀ j < p.memSize, ∃ f, space.translate i.user.paging ((p.vaddr + j) / 0x1000) = some f ∧
    i.ram (f, (p.vaddr + j) % 0x1000) = if j < p.fileSize then byte (p.offset + j) else 0

/-- From one state to the next only the pages of `P` are mapped anew, to frames that no
other page shows, and only these frames are written. -/
structure OnlyPages (space : AddressSpace σ) (P : ℕ → Prop) (i i' : UserImage σ φ) : Prop where
  translate : ∀ q < userPages, ¬ P q →
    space.translate i'.user.paging q = space.translate i.user.paging q
  frames : ∀ f, (∀ q < userPages, P q → space.translate i'.user.paging q ≠ some f) →
    ∀ o, i'.ram (f, o) = i.ram (f, o)
  apart : ∀ q < userPages, P q → ∀ q' < userPages, ¬ P q' → ∀ f,
    space.translate i'.user.paging q = some f → space.translate i'.user.paging q' ≠ some f

/-- INTERNAL: the addresses of consecutive pages. -/
theorem range'_pages (a n : ℕ) :
    List.range' (0x1000 * a) n 0x1000 = (List.range' a n).map (0x1000 * ·) := by
  induction n generalizing a with
  | zero => rfl
  | succ n ih =>
      rw [List.range'_succ, List.range'_succ, List.map_cons, ← ih]
      rfl

theorem mapSegment_paging (space : AddressSpace σ) {p : ElfPHeader} (hwf : SegmentWellFormed p) (u : UserState σ φ) :
    (mapSegment space p u).paging = (List.range' (firstPage p) (pageCount p)).foldl
      (fun s q => space.mapFresh (0x1000 * q) true s) u.paging := by
  obtain ⟨hbegin, -, hbss, hlast⟩ := segment_bounds hwf
  unfold userPages at hlast
  have hlen : sub32 p.bssEnd p.pageBegin = 0x1000 * pageCount p := by
    rw [hbegin, hbss, sub32_eq (by omega) (by omega)]
    omega
  have hstop : add32 p.pageBegin (0x1000 * pageCount p) =
      0x1000 * (firstPage p + pageCount p) := by
    rw [hbegin, add32_eq (by omega)]
    omega
  have hrange : pageRange p.pageBegin (0x1000 * (firstPage p + pageCount p)) =
      (List.range' (firstPage p) (pageCount p)).map (0x1000 * ·) := by
    have hcount : (0x1000 * (firstPage p + pageCount p) - 0x1000 * firstPage p + 0xFFF) / 0x1000 =
        pageCount p := by omega
    rw [pageRange, hbegin, hcount, range'_pages]
  have hwrite : hasFlag elfProt ummBlockProtWrite = true := by decide
  simp only [mapSegment, umapPages, mapPages, hlen, hstop, hrange, hwrite, List.foldl_map]

/-- INTERNAL: the bytes of a segment whose pages show frames of their own.
SRCLINE: elf.c:91-97 -/
theorem storeSegment_spec (byte : ℕ → Byte) {t : ℕ → Option ℕ} {p : ElfPHeader}
    (hwf : SegmentWellFormed p) (hfits : SegmentFits p) (ram : Ram)
    (hmapped : ∀ v, p.vaddr ≤ v → v < 0x1000 * (firstPage p + pageCount p) →
      t (v / 0x1000) ≠ none)
    (hinj : ∀ v w, p.vaddr ≤ v → v < 0x1000 * (firstPage p + pageCount p) →
      p.vaddr ≤ w → w < 0x1000 * (firstPage p + pageCount p) →
        t (v / 0x1000) = t (w / 0x1000) → v / 0x1000 = w / 0x1000) :
    ∃ ram', storeSegment t byte p ram = some ram' ∧
      (∀ f, (∀ v, p.vaddr ≤ v → v < 0x1000 * (firstPage p + pageCount p) →
        t (v / 0x1000) ≠ some f) → ∀ o, ram' (f, o) = ram (f, o)) ∧
      ∀ j < p.memSize, ∀ f, t ((p.vaddr + j) / 0x1000) = some f →
        ram' (f, (p.vaddr + j) % 0x1000) = if j < p.fileSize then byte (p.offset + j) else 0 := by
  obtain ⟨-, hfile, hbss, hlast⟩ := segment_bounds hwf
  obtain ⟨hsize, hend⟩ := hwf
  unfold SegmentFits at hfits
  unfold userPages at hlast
  generalize hstop : firstPage p + pageCount p = stop at *
  have hlength : (p.fileBytes byte).length = p.fileSize := by
    simp [ElfPHeader.fileBytes]
  have hzeros : sub32 p.bssEnd (p.vaddr + p.fileSize) =
      0x1000 * stop - (p.vaddr + p.fileSize) := by
    rw [hbss, sub32_eq (by omega) (by omega)]
  obtain ⟨ram₁, hstore₁, hother₁, hbytes₁⟩ := @storeBytes_spec t p.vaddr
    (p.fileBytes byte) ram (by omega)
    (fun v hv hv' => hmapped v hv (by omega))
    (fun v w hv hv' hw hw' => hinj v w hv (by omega) hw (by omega))
  obtain ⟨ram₂, hstore₂, hother₂, hbytes₂⟩ := @storeBytes_spec t (p.vaddr + p.fileSize)
    (List.replicate (0x1000 * stop - (p.vaddr + p.fileSize)) 0) ram₁
    (by rw [List.length_replicate]; omega)
    (fun v hv hv' => hmapped v (by omega) (by rw [List.length_replicate] at hv'; omega))
    (fun v w hv hv' hw hw' => hinj v w (by omega) (by rw [List.length_replicate] at hv'; omega)
      (by omega) (by rw [List.length_replicate] at hw'; omega))
  rw [List.length_replicate] at hother₂
  rw [hlength] at hother₁
  refine ⟨ram₂, ?_, fun f hf o => ?_, fun j hj f hf => ?_⟩
  · simp only [storeSegment, hstore₁, Option.bind_some, memset, hzeros, hfile, hstore₂]
  · rw [hother₂ f o fun v hv hv' hvf => absurd hvf (hf v (by omega) (by omega)),
      hother₁ f o fun v hv hv' hvf => absurd hvf (hf v hv (by omega))]
  · split
    next hjf =>
      rw [hother₂ f _ fun v hv hv' hvf hoff => ?_, hbytes₁ j f (by omega) hf]
      · simp [ElfPHeader.fileBytes]
      · have hpage := hinj v (p.vaddr + j) (by omega) (by omega) (by omega) (by omega)
          (hvf.trans hf.symm)
        omega
    next hjf =>
      have hshift : p.vaddr + j = p.vaddr + p.fileSize + (j - p.fileSize) := by omega
      rw [hshift] at hf ⊢
      rw [hbytes₂ (j - p.fileSize) f (by rw [List.length_replicate]; omega) hf,
        List.getElem_replicate]

/-- INTERNAL: one segment. -/
theorem elfLoadSegment_spec (hspace : MapsFresh space Inv) (byte : ℕ → Byte) {p : ElfPHeader}
    (htype : p.type = elf32PHeaderTypeLoadableSeg) (hwf : SegmentWellFormed p)
    (hfits : SegmentFits p) {m : ℕ} {i : UserImage σ φ}
    (hi : Inv (pageCount p + m) i.user.paging) :
    ∃ i', elfLoadSegment space byte p i = some i' ∧ Inv m i'.user.paging ∧
      SegmentLoaded space byte i' p ∧ OnlyPages space (HasPage p) i i' := by
  have hlast := (segment_bounds hwf).2.2.2
  have hpaging := mapSegment_paging space hwf i.user
  obtain ⟨hinv, hrange⟩ := mapRange_spec hspace true hlast hi
  rw [← hpaging] at hinv hrange
  have hlow : 0x1000 * firstPage p ≤ p.vaddr := by
    unfold firstPage
    omega
  have hsize : p.vaddr + p.memSize ≤ 0x1000 * (firstPage p + pageCount p) := hfits
  unfold userPages at hlast
  have hshown : ∀ v, p.vaddr ≤ v → v < 0x1000 * (firstPage p + pageCount p) →
      HasPage p (v / 0x1000) ∧ ∃ f, space.translate (mapSegment space p i.user).paging
        (v / 0x1000) = some f ∧ ∀ q' < userPages, q' ≠ v / 0x1000 →
          space.translate (mapSegment space p i.user).paging q' ≠ some f := by
    intro v hv hv'
    have hhas : firstPage p ≤ v / 0x1000 ∧ v / 0x1000 < firstPage p + pageCount p := by omega
    exact ⟨hhas, hrange.inside _ hhas.1 hhas.2⟩
  generalize hu : mapSegment space p i.user = u at hinv hrange hshown
  obtain ⟨ram', hstore, hother, hbytes⟩ := storeSegment_spec byte (t := space.translate u.paging)
    hwf hfits i.ram
    (fun v hv hv' => by
      obtain ⟨-, f, hf, -⟩ := hshown v hv hv'
      rw [hf]
      exact Option.some_ne_none f)
    (fun v w hv hv' hw hw' heq => by
      obtain ⟨-, f, hf, hapart⟩ := hshown w hw hw'
      by_contra hne
      exact hapart (v / 0x1000) (by unfold userPages; omega) hne (heq.trans hf))
  refine ⟨⟨u, ram'⟩, ?_, hinv, fun j hj => ?_, ?_⟩
  · simp only [elfLoadSegment, if_pos htype, hu, hstore, Option.map_some]
  · obtain ⟨-, f, hf, -⟩ := hshown (p.vaddr + j) (by omega) (by omega)
    exact ⟨f, hf, hbytes j hj f hf⟩
  · constructor
    · intro q hq hout
      apply hrange.outside q hq
      unfold HasPage at hout
      omega
    · intro f hf
      apply hother f
      intro v hv hv'
      exact hf _ (by unfold userPages; omega) (hshown v hv hv').1
    · intro q hq hhas q' hq' hhas' f hf hf'
      obtain ⟨g, hg, hapart⟩ := hrange.inside q hhas.1 hhas.2
      have hne : q' ≠ q := by
        rintro rfl
        exact hhas' hhas
      exact hapart q' hq' hne (hf'.trans (hf.symm.trans hg))

/-! ## The whole image -/

/-- What one header leaves stays when only other pages are mapped. -/
theorem SegmentLoaded.keep {byte : ℕ → Byte} {p : ElfPHeader} {P : ℕ → Prop}
    {i i' : UserImage σ φ} (h : SegmentLoaded space byte i p) (hwf : SegmentWellFormed p)
    (hfits : SegmentFits p) (hP : ∀ q, HasPage p q → ¬ P q) (honly : OnlyPages space P i i') :
    SegmentLoaded space byte i' p := by
  obtain ⟨-, -, -, hlast⟩ := segment_bounds hwf
  intro j hj
  obtain ⟨f, hf, hbyte⟩ := h j hj
  have hhas : HasPage p ((p.vaddr + j) / 0x1000) := by
    unfold SegmentFits at hfits
    unfold HasPage firstPage at *
    omega
  have huser : (p.vaddr + j) / 0x1000 < userPages := lt_of_lt_of_le hhas.2 hlast
  have hkeep := honly.translate _ huser (hP _ hhas)
  refine ⟨f, hkeep.trans hf, ?_⟩
  rw [honly.frames f fun q hq hPq hq' =>
    honly.apart q hq hPq _ huser (hP _ hhas) f hq' (hkeep.trans hf)]
  exact hbyte

/-- The headers that are loaded. -/
def loadable (headers : List ElfPHeader) : List ElfPHeader :=
  headers.filter fun p => p.type = elf32PHeaderTypeLoadableSeg

/-- The frames that the loader takes for pages. -/
def pagesNeeded (headers : List ElfPHeader) : ℕ := ((loadable headers).map pageCount).sum

theorem OnlyPages.refl (space : AddressSpace σ) (i : UserImage σ φ) :
    OnlyPages space (fun _ => False) i i where
  translate _ _ _ := rfl
  frames _ _ _ := rfl
  apart _ _ h := h.elim

/-- One after the other, on pages that are apart. -/
theorem OnlyPages.trans {P Q : ℕ → Prop} {i i' i'' : UserImage σ φ}
    (hP : OnlyPages space P i i') (hQ : OnlyPages space Q i' i'')
    (hPQ : ∀ q, P q → ¬ Q q) : OnlyPages space (fun q => P q ∨ Q q) i i'' where
  translate q hq hout := by
    rw [not_or] at hout
    rw [hQ.translate q hq hout.2, hP.translate q hq hout.1]
  frames f hf o := by
    rw [hQ.frames f fun q hq hQq => hf q hq (.inr hQq)]
    apply hP.frames f
    intro q hq hPq
    rw [← hQ.translate q hq (hPQ q hPq)]
    exact hf q hq (.inl hPq)
  apart q hq hin q' hq' hout f hf := by
    rw [not_or] at hout
    by_cases hQq : Q q
    · exact hQ.apart q hq hQq q' hq' hout.2 f hf
    · rw [hQ.translate q hq hQq] at hf
      rw [hQ.translate q' hq' hout.2]
      exact hP.apart q hq (hin.resolve_right hQq) q' hq' hout.1 f hf

/-- INTERNAL: by induction on the headers.  What a segment leaves is kept by those behind
it, which have other pages. -/
theorem elfLoadLoop_spec (hspace : MapsFresh space Inv) (byte : ℕ → Byte)
    {headers : List ElfPHeader} {m : ℕ} {i : UserImage σ φ}
    (hwf : ∀ p ∈ loadable headers, SegmentWellFormed p)
    (hfits : ∀ p ∈ loadable headers, SegmentFits p)
    (hapart : (loadable headers).Pairwise fun p p' => ∀ q, HasPage p q → ¬ HasPage p' q)
    (hi : Inv (pagesNeeded headers + m) i.user.paging) :
    ∃ i', elfLoadLoop space byte headers i = some i' ∧ Inv m i'.user.paging ∧
      (∀ p ∈ loadable headers, SegmentLoaded space byte i' p) ∧
      OnlyPages space (fun q => ∃ p ∈ loadable headers, HasPage p q) i i' := by
  induction headers generalizing i with
  | nil =>
      refine ⟨i, rfl, by simpa [pagesNeeded, loadable] using hi, by simp [loadable], ?_⟩
      simpa [loadable] using OnlyPages.refl space i
  | cons p headers ih =>
      by_cases htype : p.type = elf32PHeaderTypeLoadableSeg
      · have hload : loadable (p :: headers) = p :: loadable headers := by
          simp [loadable, htype]
        have hneed : pagesNeeded (p :: headers) = pageCount p + pagesNeeded headers := by
          simp [pagesNeeded, hload]
        rw [hload] at hwf hfits hapart ⊢
        rw [hneed, Nat.add_assoc] at hi
        obtain ⟨hp, hapart⟩ := List.pairwise_cons.mp hapart
        have hwfp := hwf p List.mem_cons_self
        have hfitsp := hfits p List.mem_cons_self
        obtain ⟨i₁, hrun₁, hinv₁, hloaded, honly⟩ :=
          elfLoadSegment_spec hspace byte htype hwfp hfitsp hi
        obtain ⟨i', hrun, hinv, hrest, honly'⟩ := ih
          (fun p' hp' => hwf p' (List.mem_cons_of_mem p hp'))
          (fun p' hp' => hfits p' (List.mem_cons_of_mem p hp')) hapart hinv₁
        have hother : ∀ q, HasPage p q → ¬ ∃ p' ∈ loadable headers, HasPage p' q := by
          rintro q hq ⟨p', hp', hq'⟩
          exact hp p' hp' q hq hq'
        refine ⟨i', ?_, hinv, ?_, ?_⟩
        · simp only [elfLoadLoop, hrun₁, Option.bind_some, hrun]
        · intro p' hp'
          cases List.mem_cons.mp hp' with
          | inl heq =>
              rw [heq]
              exact hloaded.keep hwfp hfitsp hother honly'
          | inr hp' => exact hrest p' hp'
        · simpa only [List.mem_cons, exists_eq_or_imp] using honly.trans honly' hother
      · have hload : loadable (p :: headers) = loadable headers := by
          simp [loadable, htype]
        have hneed : pagesNeeded (p :: headers) = pagesNeeded headers := by
          simp [pagesNeeded, hload]
        rw [hload] at hwf hfits hapart ⊢
        rw [hneed] at hi
        obtain ⟨i', hrun, hrest⟩ := ih hwf hfits hapart hi
        refine ⟨i', ?_, hrest⟩
        simp only [elfLoadLoop, elfLoadSegment, if_neg htype, Option.bind_some, hrun]

/-- INTERNAL: whatever the segments are, a page that the loader maps for none of them shows
what it showed before. -/
theorem elfLoadLoop_outside (hspace : MapsFresh space Inv) (byte : ℕ → Byte)
    {headers : List ElfPHeader} {i i' : UserImage σ φ}
    (hwf : ∀ p ∈ loadable headers, SegmentWellFormed p)
    (hi : Inv (pagesNeeded headers) i.user.paging)
    (hrun : elfLoadLoop space byte headers i = some i') {q : ℕ} (hq : q < userPages)
    (hout : ∀ p ∈ loadable headers, ¬ HasPage p q) :
    space.translate i'.user.paging q = space.translate i.user.paging q := by
  induction headers generalizing i with
  | nil =>
      obtain rfl := Option.some.inj hrun
      rfl
  | cons p headers ih =>
      by_cases htype : p.type = elf32PHeaderTypeLoadableSeg
      · have hload : loadable (p :: headers) = p :: loadable headers := by
          simp [loadable, htype]
        have hneed : pagesNeeded (p :: headers) = pageCount p + pagesNeeded headers := by
          simp [pagesNeeded, hload]
        rw [hload] at hwf hout
        rw [hneed] at hi
        have hwfp := hwf p List.mem_cons_self
        obtain ⟨-, -, -, hlast⟩ := segment_bounds hwfp
        have hpaging := mapSegment_paging space hwfp i.user
        obtain ⟨hinv, hrange⟩ := mapRange_spec hspace true hlast hi
        rw [← hpaging] at hinv hrange
        simp only [elfLoadLoop, elfLoadSegment, if_pos htype] at hrun
        cases hstore : storeSegment (space.translate (mapSegment space p i.user).paging) byte p
            i.ram with
        | none =>
            rw [hstore] at hrun
            cases hrun
        | some ram =>
            rw [hstore] at hrun
            have hrest := @ih ⟨mapSegment space p i.user, ram⟩
              (fun p' hp' => hwf p' (List.mem_cons_of_mem p hp')) hinv hrun
              (fun p' hp' => hout p' (List.mem_cons_of_mem p hp'))
            have hpage := hout p List.mem_cons_self
            unfold HasPage at hpage
            exact hrest.trans (hrange.outside q hq (by omega))
      · have hload : loadable (p :: headers) = loadable headers := by
          simp [loadable, htype]
        have hneed : pagesNeeded (p :: headers) = pagesNeeded headers := by
          simp [pagesNeeded, hload]
        rw [hload] at hwf hout
        rw [hneed] at hi
        simp only [elfLoadLoop, elfLoadSegment, if_neg htype, Option.bind_some] at hrun
        exact ih hwf hi hrun hout

end

/-! ## The page tables of the kernel -/

variable {k : KernelLayout} {φ : Type}

/-- The manager has frames for `n` more pages and their page tables, and the frames of
the page tables and of the pages are marked used. -/
structure ReadyFor (k : KernelLayout) (n : ℕ) (s : Vmm Pmm) : Prop where
  paging : PagingUsed k s
  shown : ∀ q < userPages, ∀ f, (vmmSpace k).translate s q = some f → s.alloc.used (f / 0x1000)
  supplies : s.alloc.Supplies (2 * n)

/-- INTERNAL: `vmm_map_page(alloc_page(), ..)` changes the translation of its own page, to a
frame that no page shows: a shown frame is marked used, the one taken was free. -/
theorem vmmSpace_mapsFresh (k : KernelLayout) : MapsFresh (vmmSpace k) (ReadyFor k) := by
  intro n s page write hpage hs
  have hsupplies : s.alloc.Supplies (2 * n + 2) := hs.supplies
  obtain ⟨hmod, hlt, hfree, hused⟩ := Pmm.allocPage_spec hsupplies.1
  have hdir : pageDirIndex (0x1000 * page) = page / 1024 % 1024 := by
    unfold pageDirIndex
    omega
  have htab : pageTableIndex (0x1000 * page) = page % 1024 := by
    unfold pageTableIndex
    omega
  have hv : pageDirIndex (0x1000 * page) ≠ 768 := by
    unfold userPages at hpage
    omega
  have hkeep := hs.paging.allocPage hsupplies.1
  obtain ⟨hkeep', hsupplies'⟩ := hkeep.vmmMapPage hv hmod hlt write true hsupplies.2
  obtain ⟨-, hread, -, htakes⟩ := vmmMapPage_entries pmmFrames hkeep.wellMapped (.inl hv)
    s.alloc.allocPage.1 write true fun _ => hkeep.toPagingUsed.canBeTable hsupplies.2.1
  have hnew : ∀ q < userPages, (vmmSpace k).translate s q ≠ some s.alloc.allocPage.1 :=
    fun q hq heq => hfree (hs.shown q hq _ heq)
  have htrans : ∀ q < userPages,
      (vmmSpace k).translate ((vmmSpace k).mapFresh (0x1000 * page) write s) q =
        if q = page then some s.alloc.allocPage.1 else (vmmSpace k).translate s q := by
    intro q hq
    unfold userPages at hq hpage
    have hq768 : q / 1024 % 1024 ≠ 768 := by omega
    have hentry : Vmm.pageEntry k ((vmmSpace k).mapFresh (0x1000 * page) write s)
        (q / 1024 % 1024) (q % 1024) = _ :=
      hread (q / 1024 % 1024) (Nat.mod_lt _ (by decide)) (q % 1024) (.inl hq768)
    rw [hdir, htab] at hentry
    unfold vmmSpace at hentry ⊢
    dsimp only at hentry ⊢
    by_cases hqp : q = page
    · have hsame : q / 1024 % 1024 = page / 1024 % 1024 ∧ q % 1024 = page % 1024 := by
        rw [hqp]
        exact ⟨rfl, rfl⟩
      obtain ⟨hpres, hframe⟩ := mapEntry_spec (Vmm.pageEntry k
        { s with alloc := s.alloc.allocPage.2 } (q / 1024 % 1024) (q % 1024)) write true
        (Nat.dvd_of_mod_eq_zero hmod) hlt
      rw [if_pos hsame] at hentry
      rw [if_pos hqp, hentry, if_pos hpres, hframe]
    · have hne : ¬ (q / 1024 % 1024 = page / 1024 % 1024 ∧ q % 1024 = page % 1024) := by omega
      rw [if_neg hne] at hentry
      rw [if_neg hqp, hentry]
      rfl
  refine ⟨⟨hkeep'.toPagingUsed, fun q hq f hf => ?_, hsupplies'⟩, _, hnew, htrans⟩
  have hmono : ∀ b, s.alloc.allocPage.2.used b →
      ((vmmSpace k).mapFresh (0x1000 * page) write s).alloc.used b := by
    intro b hb
    obtain ⟨-, halloc, -⟩ | ⟨-, halloc, -⟩ := htakes
    · exact (congrArg (Pmm.used · b) halloc).mpr hb
    · exact (congrArg (Pmm.used · b) halloc).mpr
        (((Pmm.allocPage_spec hsupplies.2.1).2.2.2 b).mpr (.inr hb))
  apply hmono
  rw [htrans q hq] at hf
  split at hf
  next =>
    obtain rfl := Option.some.inj hf
    exact (hused _).mpr (.inl rfl)
  next => exact (hused _).mpr (.inr (hs.shown q hq f hf))

/-- The segment reaches into page `q`. -/
def Touches (p : ElfPHeader) (q : ℕ) : Prop :=
  p.vaddr / 0x1000 ≤ q ∧ 0x1000 * q < p.vaddr + p.memSize

/-- INTERNAL: the pages of a segment that fits are the pages it touches. -/
theorem hasPage_iff {p : ElfPHeader} (hfits : SegmentFits p) (q : ℕ) :
    HasPage p q ↔ Touches p q := by
  unfold HasPage Touches SegmentFits firstPage pageCount at *
  omega

/-- What `elf_load_segments` should do: it returns, every segment is loaded, and nothing
outside the pages of the segments is mapped anew or written. -/
def ImageLoaded (space : AddressSpace (Vmm Pmm)) (image : ElfImage)
    (i : UserImage (Vmm Pmm) φ) : Prop :=
  ∃ i', elfLoadSegments space image i = some i' ∧
    (∀ p ∈ loadable image.pHeaders, SegmentLoaded space image.byte i' p) ∧
    OnlyPages space (fun q => ∃ p ∈ loadable image.pHeaders, Touches p q) i i'

/-- INTERNAL: segments that fit and do not meet in a page are loaded. -/
theorem imageLoaded_of_fits {image : ElfImage} {i : UserImage (Vmm Pmm) φ}
    (htype : image.type = elf32TypeExec)
    (hwf : ∀ p ∈ loadable image.pHeaders, SegmentWellFormed p)
    (hapart : (loadable image.pHeaders).Pairwise fun p p' => ∀ q, Touches p q → ¬ Touches p' q)
    (hready : ReadyFor k (pagesNeeded image.pHeaders) i.user.paging)
    (hfits : ∀ p ∈ loadable image.pHeaders, SegmentFits p) : ImageLoaded (vmmSpace k) image i := by
  have hpages : (loadable image.pHeaders).Pairwise fun p p' => ∀ q, HasPage p q → ¬ HasPage p' q :=
    hapart.imp_of_mem fun hp hp' h q hq hq' =>
      h q ((hasPage_iff (hfits _ hp) q).mp hq) ((hasPage_iff (hfits _ hp') q).mp hq')
  obtain ⟨i', hrun, -, hloaded, honly⟩ := elfLoadLoop_spec (vmmSpace_mapsFresh k) image.byte
    hwf hfits hpages (m := 0) hready
  refine ⟨i', ?_, hloaded, ?_⟩
  · simp only [elfLoadSegments, htype, ne_eq, not_true_eq_false, if_false, hrun]
  · have hsame : (fun q => ∃ p ∈ loadable image.pHeaders, HasPage p q) =
        fun q => ∃ p ∈ loadable image.pHeaders, Touches p q := by
      funext q
      apply propext
      apply exists_congr
      intro p
      apply and_congr_right
      intro hp
      exact hasPage_iff (hfits p hp) q
    rw [← hsame]
    exact honly

/-- INTERNAL: where a segment does not fit, its last page is mapped for no segment. -/
theorem fits_of_imageLoaded {image : ElfImage} {i : UserImage (Vmm Pmm) φ}
    (htype : image.type = elf32TypeExec)
    (hwf : ∀ p ∈ loadable image.pHeaders, SegmentWellFormed p)
    (hapart : (loadable image.pHeaders).Pairwise fun p p' => ∀ q, Touches p q → ¬ Touches p' q)
    (hready : ReadyFor k (pagesNeeded image.pHeaders) i.user.paging)
    (hpos : ∀ p ∈ loadable image.pHeaders, 0 < p.memSize)
    (hempty : ∀ p ∈ loadable image.pHeaders, ∀ q, Touches p q →
      (vmmSpace k).translate i.user.paging q = none)
    (h : ImageLoaded (vmmSpace k) image i) : ∀ p ∈ loadable image.pHeaders, SegmentFits p := by
  intro p hp
  by_contra hfits
  obtain ⟨i', hrun, hloaded, -⟩ := h
  simp only [elfLoadSegments, htype, ne_eq, not_true_eq_false, if_false] at hrun
  have hsize := hpos p hp
  obtain ⟨-, hend⟩ := hwf p hp
  obtain ⟨f, hf, -⟩ := hloaded p hp (p.memSize - 1) (by omega)
  have htouch : Touches p ((p.vaddr + (p.memSize - 1)) / 0x1000) := by
    unfold Touches
    omega
  have hkeep := elfLoadLoop_outside (vmmSpace_mapsFresh k) image.byte hwf hready hrun
    (q := (p.vaddr + (p.memSize - 1)) / 0x1000) (by unfold userPages; omega) (by
      intro p' hp' hhas
      have hsize' := hpos p' hp'
      have htouch' : Touches p' ((p.vaddr + (p.memSize - 1)) / 0x1000) := by
        unfold HasPage Touches firstPage pageCount at *
        omega
      by_cases hpp : p = p'
      · subst hpp
        unfold SegmentFits at hfits
        unfold HasPage firstPage at *
        omega
      · have : Std.Symm fun p p' : ElfPHeader => ∀ q, Touches p q → ¬ Touches p' q :=
          ⟨fun _ _ h q hq hq' => h q hq' hq⟩
        exact hapart.forall hp hp' hpp _ htouch htouch')
  rw [hempty p hp _ htouch, hf] at hkeep
  cases hkeep

/-- **The image of a program.**  Let no two segments touch the same page.  If the segments
fit in the pages that are mapped for them, the image is loaded; and if no page of a
segment was mapped before, an image of nonempty segments is loaded only then.
SRCLINE: elf.c:67-100 -/
theorem elf_image_loaded (k : KernelLayout) (image : ElfImage) (i : UserImage (Vmm Pmm) φ)
    (htype : image.type = elf32TypeExec)
    (hwf : ∀ p ∈ loadable image.pHeaders, SegmentWellFormed p)
    (hapart : (loadable image.pHeaders).Pairwise fun p p' => ∀ q, Touches p q → ¬ Touches p' q)
    (hready : ReadyFor k (pagesNeeded image.pHeaders) i.user.paging) :
    ((∀ p ∈ loadable image.pHeaders, SegmentFits p) → ImageLoaded (vmmSpace k) image i) ∧
      ((∀ p ∈ loadable image.pHeaders, 0 < p.memSize) →
        (∀ p ∈ loadable image.pHeaders, ∀ q, Touches p q →
          (vmmSpace k).translate i.user.paging q = none) →
        ImageLoaded (vmmSpace k) image i → ∀ p ∈ loadable image.pHeaders, SegmentFits p) :=
  ⟨imageLoaded_of_fits htype hwf hapart hready, fits_of_imageLoaded htype hwf hapart hready⟩

/-- One segment at the start of a page: two bytes from the file and two zeros. -/
def oneSegment : ElfImage := ⟨2, [⟨1, 0, 0x400000, 2, 4⟩], fun j => BitVec.ofNat 8 j⟩

theorem emptyProcess_readyFor : ReadyFor twoFrames 1 emptyProcess.paging := by
  have hcan := emptyProcess_canMap 0x22 (by decide)
  have hstart : StartsEmpty twoFrames emptyProcess.paging :=
    ⟨by decide, by decide, by decide, by decide +kernel⟩
  refine ⟨hcan.paging, fun q hq f hf => ?_, hcan.supply⟩
  have habsent := hstart.empty (q / 1024 % 1024) (Nat.mod_lt _ (by decide)) (by
    unfold userPages at hq
    omega)
  unfold vmmSpace at hf
  dsimp only at hf
  rw [pageEntry_of_slot_absent habsent] at hf
  cases hf

theorem elf_image_loaded_one :
    ImageLoaded (vmmSpace twoFrames) oneSegment ⟨emptyProcess, fun _ => 7⟩ := by
  have hload : loadable oneSegment.pHeaders = [⟨1, 0, 0x400000, 2, 4⟩] := rfl
  refine (elf_image_loaded twoFrames oneSegment ⟨emptyProcess, fun _ => 7⟩ rfl ?_ ?_
    emptyProcess_readyFor).1 ?_
  · rw [hload]
    simp [SegmentWellFormed]
  · rw [hload]
    exact List.pairwise_singleton _ _
  · rw [hload]
    simp [SegmentFits, firstPage, pageCount]

/-- A segment of two bytes on both sides of a page boundary. -/
def straddlingSegment : ElfImage := ⟨2, [⟨1, 0, 0x400FFF, 2, 2⟩], fun j => BitVec.ofNat 8 j⟩

/-- One page is mapped for it, and the store of its second byte faults. -/
theorem straddling_segment_not_loaded :
    ¬ ∀ (k : KernelLayout) (image : ElfImage) (i : UserImage (Vmm Pmm) Unit),
      image.type = elf32TypeExec → (∀ p ∈ loadable image.pHeaders, SegmentWellFormed p) →
      (loadable image.pHeaders).Pairwise (fun p p' =>
        p.vaddr + p.memSize ≤ p'.vaddr ∨ p'.vaddr + p'.memSize ≤ p.vaddr) →
      ReadyFor k (pagesNeeded image.pHeaders) i.user.paging → ImageLoaded (vmmSpace k) image i := by
  intro h
  have hload : loadable straddlingSegment.pHeaders = [⟨1, 0, 0x400FFF, 2, 2⟩] := rfl
  obtain ⟨i', hrun, -⟩ := h twoFrames straddlingSegment ⟨emptyProcess, fun _ => 7⟩ rfl
    (by rw [hload]; simp [SegmentWellFormed]) (by rw [hload]; exact List.pairwise_singleton _ _)
    emptyProcess_readyFor
  have hnone : (elfLoadSegments (vmmSpace twoFrames) straddlingSegment
      ⟨emptyProcess, fun _ => 7⟩).isSome = false := by decide +kernel
  rw [hrun] at hnone
  cases hnone

end LakeOS.Analysis
