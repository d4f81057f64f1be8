import LakeOS.Analysis.DirNames

/-!
# Short names and back

`FAT_conv_fname` stores a name as eight characters and three, and `FAT_fname_conv` reads it
back.  The first counts the characters of the extension from the front of the name, and the
second writes the dot only where the eighth character is followed by a ninth.
-/

set_option autoImplicit false

namespace LakeOS.Analysis

open LakeOS.Library LakeOS.Model

/-! ## Names of eight characters and three -/

/-- A character of a name. -/
abbrev NameChar (c : Byte) : Prop := c ≠ 0 ∧ c ≠ dot ∧ c ≠ blank

/-- A base of one to eight characters and an extension of at most three, empty if the name
has none. -/
structure ShortName where
  base : List Byte
  ext : List Byte
  base_pos : 1 ≤ base.length
  base_le : base.length ≤ 8
  ext_le : ext.length ≤ 3
  base_chars : ∀ c ∈ base, NameChar c
  ext_chars : ∀ c ∈ ext, NameChar c

/-- A part of a stored name. -/
def padded (n : ℕ) (part : List Byte) : List Byte :=
  part ++ List.replicate (n - part.length) blank

/-- The name as it is written. -/
def ShortName.text (n : ShortName) : CString :=
  if n.ext = [] then n.base else n.base ++ dot :: n.ext

/-- The base padded to eight characters and the extension padded to three. -/
def ShortName.stored (n : ShortName) : List Byte := padded 8 n.base ++ padded 3 n.ext

/-- The name is stored as it should be and comes back, and no other name is stored so. -/
structure NameRoundTrip (n : ShortName) : Prop where
  stored : fatConvFname n.text = n.stored
  back : fatFnameConv (fatConvFname n.text) = n.text
  apart : ∀ n' : ShortName, fatConvFname n'.text = fatConvFname n.text → n'.text = n.text

/-! ## Padding -/

theorem length_padded {n : ℕ} {part : List Byte} (h : part.length ≤ n) :
    (padded n part).length = n := by
  simp [padded, h]

/-- The characters up to the first blank. -/
theorem padded_takeWhile {n : ℕ} {part : List Byte} (hchars : ∀ c ∈ part, NameChar c) :
    (padded n part).takeWhile (· != blank) = part := by
  have hall : ∀ c ∈ part, (c != blank) = true := fun c hc => bne_iff_ne.mpr (hchars c hc).2.2
  unfold padded
  rw [List.takeWhile_append_of_pos hall]
  cases n - part.length with
  | zero => simp
  | succ n => simp [List.replicate_succ]

theorem padded_inj {n : ℕ} {part part' : List Byte} (hchars : ∀ c ∈ part, NameChar c)
    (hchars' : ∀ c ∈ part', NameChar c) (h : padded n part = padded n part') : part = part' := by
  rw [← padded_takeWhile hchars (n := n), h, padded_takeWhile hchars']

/-- Two stored names are the same if their parts are. -/
theorem padded_append_inj {base base' ext ext' : List Byte} (hlen : base.length ≤ 8)
    (hlen' : base'.length ≤ 8) (hbase : ∀ c ∈ base, NameChar c) (hbase' : ∀ c ∈ base', NameChar c)
    (hext : ∀ c ∈ ext, NameChar c) (hext' : ∀ c ∈ ext', NameChar c)
    (h : padded 8 base ++ padded 3 ext = padded 8 base' ++ padded 3 ext') :
    base = base' ∧ ext = ext' := by
  have hlens : (padded 8 base).length = (padded 8 base').length := by
    rw [length_padded hlen, length_padded hlen']
  have hparts := List.append_inj h hlens
  exact ⟨padded_inj hbase hbase' hparts.1, padded_inj hext hext' hparts.2⟩

/-! ## What is stored -/

namespace ShortName

/-- The characters of the extension that are stored. -/
def kept (n : ShortName) : List Byte := n.ext.take (10 - n.base.length)

theorem kept_chars (n : ShortName) : ∀ c ∈ n.kept, NameChar c := fun c hc =>
  n.ext_chars c (List.mem_of_mem_take hc)

theorem length_kept (n : ShortName) : n.kept.length ≤ 3 := by
  have := n.ext_le
  simp only [kept, List.length_take]
  omega

/-- The third character of the extension is not kept behind a base of eight. -/
theorem kept_eq_ext (n : ShortName) :
    n.kept = n.ext ↔ ¬ (n.base.length = 8 ∧ n.ext.length = 3) := by
  have hbase := n.base_le
  have hext := n.ext_le
  unfold kept
  rw [List.take_eq_self_iff]
  omega

theorem text_eq (n : ShortName) : ∃ tail, n.text = n.base ++ tail ∧
    (tail = [] ∨ ∃ ext, tail = dot :: ext) ∧ tail.drop 1 = n.ext := by
  by_cases h : n.ext = []
  · exact ⟨[], by simp [text, h], .inl rfl, by simp [h]⟩
  · exact ⟨dot :: n.ext, by simp [text, h], .inr ⟨_, rfl⟩, rfl⟩

/-- **The stored name**: the base is padded to eight characters, and what is kept of the
extension to three.
SRCLINE: fat.c:597-610 -/
theorem fatConvFname_text (n : ShortName) :
    fatConvFname n.text = padded 8 n.base ++ padded 3 n.kept := by
  have hpos := n.base_pos
  have hle := n.base_le
  obtain ⟨tail, htext, htail, hext⟩ := n.text_eq
  have hbase := takeWhile_base hle (fun c hc => (n.base_chars c hc).2.1) htail
  have hfirst : ¬ (n.text.head? = some dot ∧ n.text.length < 3) := by
    rintro ⟨hdot, -⟩
    obtain ⟨b, base, hcons⟩ := List.exists_cons_of_length_pos hpos
    rw [htext, hcons] at hdot
    exact (n.base_chars b (by simp [hcons])).2.1 (Option.some.inj hdot)
  -- the extension is read behind the dot, up to the eleventh character of the name
  have hkept : (n.text.take 11).drop (n.base.length + 1) = n.kept := by
    rw [List.drop_take, htext, ← List.drop_drop, List.drop_left, hext, kept]
    congr 1
    omega
  unfold fatConvFname
  rw [if_neg hfirst]
  dsimp only
  rw [htext, hbase, ← htext, hkept]
  have hlen := n.length_kept
  simp only [padded, List.length_append, List.length_replicate, List.append_assoc]
  congr 4
  omega

/-! ## What is read back -/

/-- **The name that is read back.** The dot is left out behind a base of less than eight
characters, and where nothing of an extension is stored. -/
theorem fatFnameConv_text (n : ShortName) :
    fatFnameConv (fatConvFname n.text) =
      n.base ++ (if n.base.length = 8 ∧ n.ext ≠ [] then [dot] else []) ++ n.kept := by
  have hbase := length_padded n.base_le
  have hkept := length_padded n.length_kept
  have hle := n.base_le
  have hfirst : ((padded 8 n.base ++ padded 3 n.kept).take 8).takeWhile (· != blank) = n.base := by
    rw [List.take_left' hbase, padded_takeWhile n.base_chars]
  have hlast : (((padded 8 n.base ++ padded 3 n.kept).drop 8).take 3).takeWhile (· != blank) =
      n.kept := by
    rw [List.drop_left' hbase, List.take_of_length_le (le_of_eq hkept),
      padded_takeWhile n.kept_chars]
  have hpoint : (padded 8 n.base ++ padded 3 n.kept)[n.base.length]? = some blank ↔
      ¬ (n.base.length = 8 ∧ n.ext ≠ []) := by
    rcases Nat.lt_or_ge n.base.length 8 with hlt | hge
    · rw [List.getElem?_append_left (by omega), padded, List.getElem?_append_right (Nat.le_refl _),
        List.getElem?_replicate, if_pos (by omega)]
      simp
      omega
    · rw [List.getElem?_append_right (by omega), hbase]
      have h8 : n.base.length = 8 := by omega
      cases hext : n.ext with
      | nil => simp [padded, kept, hext, h8]
      | cons c ext =>
        have hc : c ≠ blank := (n.ext_chars c (by simp [hext])).2.2
        simp [padded, kept, hext, h8]
        exact hc
  rw [fatConvFname_text]
  unfold fatFnameConv
  dsimp only
  rw [hfirst, hlast]
  by_cases h : n.base.length = 8 ∧ n.ext ≠ []
  · rw [if_neg (fun heq => hpoint.mp heq h), if_pos h]
  · rw [if_pos (hpoint.mpr h), if_neg h]

/-! ## The round trip -/

theorem stored_iff (n : ShortName) :
    fatConvFname n.text = n.stored ↔ ¬ (n.base.length = 8 ∧ n.ext.length = 3) := by
  rw [← kept_eq_ext, fatConvFname_text, stored]
  constructor
  · intro h
    exact (padded_append_inj n.base_le n.base_le n.base_chars n.base_chars n.kept_chars
      n.ext_chars h).2
  · intro h
    rw [h]

/-- The name comes back if it has no extension, or a base of eight characters and no more
than two behind the dot. -/
theorem back_iff (n : ShortName) : fatFnameConv (fatConvFname n.text) = n.text ↔
    n.ext = [] ∨ n.base.length = 8 ∧ n.ext.length ≤ 2 := by
  have hext := n.ext_le
  rw [fatFnameConv_text, text]
  by_cases hnil : n.ext = []
  · simp [hnil, kept]
  · by_cases h8 : n.base.length = 8
    · have hkept := n.kept_eq_ext
      simp [hnil, h8, hkept]
      omega
    · -- without its dot the name is shorter
      have hlen : n.kept.length ≤ n.ext.length := by simp [kept]
      simp [hnil, h8]
      intro h
      have := congrArg List.length h
      simp at this
      omega

/-- Two characters of an extension behind a base of eight are stored as three are. -/
theorem exists_same (n : ShortName) (h8 : n.base.length = 8) (h2 : n.ext.length = 2) :
    ∃ n' : ShortName, fatConvFname n'.text = fatConvFname n.text ∧ n'.text ≠ n.text := by
  have hchar : NameChar 0x41 := by decide
  refine ⟨{ n with ext := n.ext ++ [0x41], ext_le := ?_, ext_chars := ?_ }, ?_, ?_⟩
  · simp [h2]
  · intro c hc
    rcases List.mem_append.mp hc with hc | hc
    · exact n.ext_chars c hc
    · exact List.mem_singleton.mp hc ▸ hchar
  · simp [fatConvFname_text, kept, h8, h2]
    rw [List.take_of_length_le (by omega)]
  · have hnil : n.ext ≠ [] := by
      intro h
      simp [h] at h2
    simp [text, hnil]

/-- A name of which all is kept is the only one that is stored so, if no third character of
an extension can be missing. -/
theorem text_eq_of_conv {n n' : ShortName} (hn : n.ext = [] ∨ n.base.length = 8 ∧ n.ext.length ≤ 1)
    (h : fatConvFname n'.text = fatConvFname n.text) : n'.text = n.text := by
  have hext' := n'.ext_le
  have hbase' := n'.base_le
  rw [fatConvFname_text, fatConvFname_text] at h
  obtain ⟨hbase, hkept⟩ := padded_append_inj n'.base_le n.base_le n'.base_chars n.base_chars
    n'.kept_chars n.kept_chars h
  have hself : n.kept = n.ext := by
    rw [kept_eq_ext]
    rcases hn with hnil | hn
    · simp [hnil]
    · omega
  have hle : n'.kept.length ≤ 1 := by
    rw [hkept, hself]
    rcases hn with hnil | hn
    · simp [hnil]
    · exact hn.2
  have hall : n'.kept = n'.ext := by
    rw [kept, List.take_eq_self_iff]
    simp only [kept, List.length_take] at hle
    omega
  rw [text, text, hbase, ← hall, hkept, hself]

end ShortName

/-- **Names of eight characters and three** make the round trip if they have no extension, or
one character of it behind a base of eight.
SRCLINE: fat.c:586-628 -/
theorem nameRoundTrip_iff (n : ShortName) :
    NameRoundTrip n ↔ n.ext = [] ∨ n.base.length = 8 ∧ n.ext.length ≤ 1 := by
  constructor
  · intro h
    rcases n.back_iff.mp h.back with hnil | ⟨h8, h2⟩
    · exact .inl hnil
    · refine .inr ⟨h8, ?_⟩
      by_contra hlt
      obtain ⟨n', hconv, hne⟩ := n.exists_same h8 (by omega)
      exact hne (h.apart n' hconv)
  · intro h
    refine ⟨?_, ?_, fun n' => ShortName.text_eq_of_conv h⟩
    · rw [ShortName.stored_iff]
      rcases h with hnil | h
      · simp [hnil]
      · omega
    · rw [ShortName.back_iff]
      rcases h with hnil | h
      · exact .inl hnil
      · exact .inr ⟨h.1, by omega⟩

/-- `A.B`. -/
def nameAB : ShortName where
  base := [0x41]
  ext := [0x42]
  base_pos := by simp
  base_le := by simp
  ext_le := by simp
  base_chars := by decide
  ext_chars := by decide

/-- `A.B` comes back as `AB`. -/
theorem nameAB_no_round_trip :
    fatFnameConv (fatConvFname nameAB.text) = [0x41, 0x42] ∧ ¬ NameRoundTrip nameAB := by
  constructor
  · decide
  · intro h
    exact absurd h.back (by decide)

end LakeOS.Analysis
