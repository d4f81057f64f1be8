import LakeOS.Analysis.StringScan
import LakeOS.Analysis.PathCreate

/-!
# The copy of a path

Where `last` points to is what is left of the copy, a string.  Each call of `strtok` ends its
token with a `0` inside the copy and yields the same piece as on a list, so the walk depends
on the pieces of the path alone, and on no pointer that an earlier walk left behind.
-/

set_option autoImplicit false

namespace LakeOS.Analysis

open LakeOS.Library LakeOS.Model

/-! ## Strings -/

section

variable {mem : Store Byte} {a sep fuel : ℕ} {s : List Byte}

theorem strlen_string (h : StringAt mem a s) (hlt : s.length < 2 ^ 32) :
    strlen mem a = s.length := by
  refine strlen_eq ?_ h.nonzero hlt
  rw [Store.read_add, (Store.read_eq_iff _ _ _ _).mpr ⟨rfl, h.bytes⟩]
  congr 1
  simp [Store.read, h.terminator]

theorem read_string (h : StringAt mem a s) : mem.read a s.length = s :=
  (Store.read_eq_iff _ _ _ _).mpr ⟨rfl, h.bytes⟩

/-- INTERNAL: one separator is the first one that is there, or none is. -/
theorem find?_slash (s : CString) :
    [slash].find? (· ∈ s) = if slash ∈ s then some slash else none := by
  by_cases hmem : slash ∈ s
  · rw [if_pos hmem, List.find?_cons_of_pos (by simpa using hmem)]
  · rw [if_neg hmem, List.find?_cons_of_neg (by simpa using hmem)]
    rfl

end

/-! ## Tokens -/

/-- The pointer is what is left of the string, inside `[lo, hi)`. -/
inductive Pending (mem : Store Byte) (lo hi : ℕ) : Option ℕ → Option CString → Prop
  | null : Pending mem lo hi none none
  | string {a : ℕ} {s : CString} (h : StringAt mem a s) (hlo : lo ≤ a) (hhi : a + s.length < hi) :
      Pending mem lo hi (some a) (some s)

/-- What `strtok` does in memory is what it does to a list: the token is a string, the pointer
is what is left, and only bytes inside `[lo, hi)` were written. -/
structure TokenAt (mem : Store Byte) (lo hi : ℕ) (token : Token)
    (expected : Option CString × Option CString) : Prop where
  start : Pending token.mem lo hi token.start expected.1
  last : Pending token.mem lo hi token.last expected.2
  outside : ∀ x, x < lo ∨ hi ≤ x → token.mem x = mem x

section

variable {mem : Store Byte} {lo hi sep fuel : ℕ} {last : Option ℕ} {l : Option CString}

/-- INTERNAL: **`strtok` in memory.**
SRCLINE: strtok.c:3-27 -/
theorem strtokAt_spec (hsep : StringAt mem sep [slash]) (hfuel : hi < lo + fuel)
    (hsepFuel : 1 < fuel) (h : Pending mem lo hi last l) :
    ∃ token, strtokAt mem fuel sep last none = some token ∧
      TokenAt mem lo hi token (strtok l) := by
  cases h with
  | null => exact ⟨_, rfl, .null, .null, fun _ _ => rfl⟩
  | @string a s h hlo hhi =>
      have hone : (fun c => decide (c ∈ [slash])) = (· == slash) := by
        funext c
        simp [beq_eq_decide]
      have hat := strtokAt_string hsep (by simpa using hsepFuel) h (by omega)
      have hrest := h.dropWhile (· == slash)
      have hsplit := congrArg List.length
        (List.takeWhile_append_dropWhile (p := (· == slash)) (l := s))
      rw [List.length_append] at hsplit
      rw [hone] at hat
      refine ⟨_, hat, ?_⟩
      unfold tokenAt strtok
      obtain ⟨b, hb⟩ : ∃ b, b = a + (s.takeWhile (· == slash)).length := ⟨_, rfl⟩
      obtain ⟨start, hstart⟩ : ∃ start, start = s.dropWhile (· == slash) := ⟨_, rfl⟩
      rw [← hstart] at hsplit
      simp only [← hb, ← hstart] at hrest ⊢
      by_cases hempty : start = []
      · rw [if_pos hempty, if_pos hempty]
        exact ⟨.null, .null, fun _ _ => rfl⟩
      · rw [if_neg hempty, if_neg hempty, find?_slash]
        by_cases hslash : slash ∈ start
        · rw [if_pos hslash, if_pos hslash]
          have hcut := List.takeWhile_append_dropWhile (p := (· != slash)) (l := start)
          have hdrop : start.dropWhile (· != slash) ≠ [] := by
            intro hnil
            rw [List.dropWhile_eq_nil_iff] at hnil
            simpa using hnil slash hslash
          obtain ⟨y, rest, hrestCons⟩ := List.exists_cons_of_ne_nil hdrop
          have hcutLen := congrArg List.length hcut
          rw [List.length_append, hrestCons, List.length_cons] at hcutLen
          rw [hrestCons] at hcut ⊢
          rw [List.tail_cons]
          rw [← hcut] at hrest
          refine ⟨.string hrest.take (by omega) (by omega), ?_, ?_⟩
          · refine .string ?_ (by omega) (by omega)
            refine hrest.drop.cons.2.2.congr fun z hz _ => ?_
            exact Store.write_of_ge _ _ (by simpa using hz)
          · intro z hz
            exact Store.write_of_notMem _ _ (by rw [List.length_singleton]; omega)
        · rw [if_neg hslash, if_neg hslash]
          exact ⟨.string hrest (by omega) (by omega), .null, fun _ _ => rfl⟩

end

/-! ## The walk -/

/-- The pieces of a token and of what is left. -/
def piecesOf : Option CString × Option CString → List CString
  | (none, _) => []
  | (some name, l) => name :: remaining l

theorem piecesOf_strtok (l : Option CString) : piecesOf (strtok l) = remaining l := by
  obtain ⟨hnil, htok⟩ | ⟨piece, htok, hcons⟩ := strtok_spec l
  · rw [← Prod.mk.eta (p := strtok l), htok, hnil]
    rfl
  · rw [← Prod.mk.eta (p := strtok l), htok, hcons]
    rfl

section

variable {H F δ : Type} {mem : Store Byte} {lo hi sep fuel : ℕ}

/-- INTERNAL: the loop looks up the pieces that are left, whatever is left of the copy.
SRCLINE: vfs.c:181-188 -/
theorem vfsWalkCopy_spec (hfuel : hi < lo + fuel) (hsepFuel : 1 < fuel) (hlt : hi < lo + 2 ^ 32)
    (hout : sep + 1 < lo ∨ hi ≤ sep) (n : ℕ) (s : Vfs H F δ) (iter : ℕ) {token : Token}
    {t : Option CString × Option CString} (hn : (piecesOf t).length < n)
    (hsep : StringAt mem sep [slash]) (htoken : TokenAt mem lo hi token t) :
    ∃ run, vfsWalkCopy fuel sep n s iter token = some run ∧
      (run.found, run.vfs) = walkPieces s iter (piecesOf t) ∧
      run.copyFreed = run.found.isSome ∧ ∀ x, x < lo ∨ hi ≤ x → run.mem x = mem x := by
  induction n generalizing s iter token t mem with
  | zero => simp at hn
  | succ n ih =>
      obtain ⟨tok, l⟩ := t
      obtain ⟨hstart, hlast, hsame⟩ := htoken
      obtain ⟨start, last, mem'⟩ := token
      dsimp only at hstart hlast hsame
      cases hstart with
      | null => exact ⟨_, rfl, rfl, rfl, hsame⟩
      | @string a name hname hlo hhi =>
          have hlen := strlen_string hname (by omega)
          have hread := read_string hname
          rw [vfsWalkCopy]
          simp only [hlen, hread]
          rw [piecesOf, walkPieces_cons]
          rw [piecesOf, List.length_cons] at hn
          obtain ⟨found, s'⟩ := vfsLookup s iter name
          cases found with
          | none => exact ⟨_, rfl, rfl, rfl, hsame⟩
          | some iter' =>
              have hsep' : StringAt mem' sep [slash] := by
                refine hsep.congr fun y hy hy' => hsame y ?_
                rw [List.length_singleton] at hy'
                omega
              obtain ⟨next, hnext, htoken'⟩ := strtokAt_spec hsep' hfuel hsepFuel hlast
              have hpieces := piecesOf_strtok l
              have hsmall : (piecesOf (strtok l)).length < n := by
                rw [hpieces]
                omega
              obtain ⟨run, hrun, hfound, hfreed, hout'⟩ := ih s' iter' hsmall hsep' htoken'
              rw [hpieces] at hfound
              refine ⟨run, ?_, hfound, hfreed, fun x hx => ?_⟩
              · simp only [hnext, Option.bind_eq_bind, Option.bind_some, hrun]
              · rw [hout' x hx, hsame x hx]

/-- INTERNAL: **a walk over a copy** of a path looks up the pieces of the path, and writes to
no byte but those of the copy.
SRCLINE: vfs.c:176-189, strdup.c:7-12 -/
theorem vfsWalkAt_spec {path : CString} {a block : ℕ} (hpath : StringAt mem a path)
    (hsep : StringAt mem sep [slash])
    (hout : sep + 1 < block ∨ block + path.length + 1 ≤ sep) (hfuel : path.length + 1 < fuel)
    (hlt : path.length + 1 < 2 ^ 32)
    (last : Option ℕ) (s : Vfs H F δ) :
    ∃ run, vfsWalkAt mem fuel sep a block last s = some run ∧
      (run.found, run.vfs) = walkPieces s vfsRoot (components path) ∧
      run.copyFreed = run.found.isSome ∧
      ∀ x, x < block ∨ block + path.length + 1 ≤ x → run.mem x = mem x := by
  have hlen := strlen_string hpath (by omega)
  have hcopy := hpath.write block
  have hsame : ∀ x, x < block ∨ block + path.length + 1 ≤ x →
      mem.write block (mem.read a (path.length + 1)) x = mem x := by
    intro x hx
    apply Store.write_of_notMem
    rw [Store.length_read]
    omega
  have hsep' : StringAt (mem.write block (mem.read a (path.length + 1))) sep [slash] := by
    refine hsep.congr fun y hy hy' => hsame y ?_
    rw [List.length_singleton] at hy'
    omega
  have hpending : Pending (mem.write block (mem.read a (path.length + 1))) block
      (block + path.length + 1) (some block) (some path) := .string hcopy le_rfl (by omega)
  have hfit : block + path.length + 1 < block + fuel := by omega
  obtain ⟨token, htoken, hat⟩ := strtokAt_spec hsep' hfit (by omega) hpending
  have hpieces : piecesOf (strtok (some path)) = components path := piecesOf_strtok (some path)
  have hn := components_length_le path
  obtain ⟨run, hrun, hfound, hfreed, hout'⟩ := vfsWalkCopy_spec hfit
    (by omega) (by omega) (by omega) fuel s vfsRoot (by rw [hpieces]; omega) hsep' hat
  rw [hpieces] at hfound
  refine ⟨run, ?_, hfound, hfreed, fun x hx => ?_⟩
  · have hstart : strtokAt (mem.write block (mem.read a (path.length + 1))) fuel sep last
        (some block) = strtokAt (mem.write block (mem.read a (path.length + 1))) fuel sep
          (some block) none := rfl
    rw [vfsWalkAt, strdup, hlen, hstart, htoken]
    exact hrun
  · rw [hout' x hx, hsame x hx]

end

/-- INTERNAL: more slashes do not make more pieces. -/
theorem components_slashes (path : CString) :
    components (slash :: path) = components path ∧ components (path ++ [slash]) = components path ∧
      ∀ lead rest, path = lead ++ slash :: rest →
        components (lead ++ slash :: slash :: rest) = components path := by
  have hnil := components_nil
  have hlead : ∀ rest, components (slash :: rest) = components rest := by
    intro rest
    have happ := components_append [] rest
    rw [hnil] at happ
    exact happ
  refine ⟨hlead path, ?_, ?_⟩
  · rw [components_append, hnil, List.append_nil]
  · rintro lead rest rfl
    rw [components_append, components_append, hlead]

/-- **A walk depends on the pieces of its path** alone: it looks them up one after the other
from the root, wherever `last` was left by an earlier walk, and the string of the caller is as
it was.  Slashes in front, behind and next to each other make no difference.
SRCLINE: vfs.c:176-189, strtok.c:3-27, strpbrk.c:3-11, strdup.c:7-12 -/
theorem vfsWalkAt_eq {H F δ : Type} {mem : Store Byte} {path : CString} {a block sep fuel : ℕ}
    (hpath : StringAt mem a path) (hsep : StringAt mem sep [slash])
    (hblock : a + path.length < block ∨ block + path.length + 1 ≤ a)
    (hout : sep + 1 < block ∨ block + path.length + 1 ≤ sep) (hfuel : path.length + 1 < fuel)
    (hlt : path.length + 1 < 2 ^ 32)
    (s : Vfs H F δ) :
    (∀ last, ∃ run, vfsWalkAt mem fuel sep a block last s = some run ∧
      (run.found, run.vfs) = walkPieces s vfsRoot (components path) ∧
      StringAt run.mem a path) ∧
    components (slash :: path) = components path ∧ components (path ++ [slash]) = components path ∧
      ∀ lead rest, path = lead ++ slash :: rest →
        components (lead ++ slash :: slash :: rest) = components path := by
  refine ⟨fun last => ?_, components_slashes path⟩
  obtain ⟨run, hrun, hfound, -, hsame⟩ := vfsWalkAt_spec hpath hsep hout hfuel hlt last s
  refine ⟨run, hrun, hfound, hpath.congr fun y hy hy' => hsame y ?_⟩
  omega

/-- A driver whose files are their paths, and whose volume lists them. -/
def pathsDriver : VfsOperations (List CString) (List CString) (List (List CString)) where
  fLookup dir name files := if dir ++ [name] ∈ files then some (dir ++ [name]) else none
  fCreate dir name _ files := (dir ++ [name]) :: files
  fOpen file _ files := (file, files)
  fClose _ files := files
  fRead _ := some fun _ files => ((0, []), files)
  fWrite _ := some fun _ files => (0, files)
  fNodeName file _ := file.getLast?.getD []

/-- A volume without files. -/
def emptyVolume : Vfs (List CString) (List CString) (List (List CString)) :=
  ⟨[⟨[], pathsDriver, []⟩], []⟩

/-- The path `/a//b/` and the separators in memory. -/
def pathBytes : Store Byte :=
  Store.write (Store.write (fun _ => 0) 0x100 [0x2F, 0x61, 0x2F, 0x2F, 0x62, 0x2F]) 0x200 [slash]

/-- The files `a` and `b` are looked up, though an earlier walk was left inside its copy. -/
theorem vfsWalkAt_slashes : ∃ run,
    vfsWalkAt pathBytes 9 0x200 0x100 0x300 (some 0x305) emptyVolume = some run ∧
      (run.found, run.vfs) =
        walkPieces emptyVolume vfsRoot (components [0x2F, 0x61, 0x2F, 0x2F, 0x62, 0x2F]) ∧
      StringAt run.mem 0x100 [0x2F, 0x61, 0x2F, 0x2F, 0x62, 0x2F] :=
  (vfsWalkAt_eq ⟨by decide, by decide, by decide⟩ ⟨by decide, by decide, by decide⟩
    (by decide) (by decide) (by decide) (by decide) emptyVolume).1 (some 0x305)

end LakeOS.Analysis
