import LakeOS.Analysis.StringScan
import LakeOS.Library.Tokens

/-!
# The tokens of a string

`strtok` is called with a string and then with `NULL` until it returns `NULL`.  Each token ends
where `strpbrk` finds a separator, and that is the first place of the first one of the set that is
in the rest of the string, not the first place of any.
-/

set_option autoImplicit false

namespace LakeOS.Analysis

open LakeOS.Library LakeOS.Model

/-- `strtok(str, sep)`, then `strtok(NULL, sep)` until `NULL` is returned: the tokens, and the
memory behind the last call. -/
def strtokAll (fuel sep : ℕ) :
    ℕ → Store Byte → Option ℕ → Option ℕ → Option (List ℕ × Store Byte)
  | 0, _, _, _ => none
  | calls + 1, mem, last, str => do
      let token ← strtokAt mem fuel sep last str
      match token.start with
      | none => some ([], token.mem)
      | some start => do
          let rest ← strtokAll fuel sep calls token.mem token.last none
          some (start :: rest.1, rest.2)

/-- The calls return the tokens of a string in their order, each one ends with a `0` in its place,
and nothing but separators of the string was written to. -/
def Tokenizes (mem : Store Byte) (seps s : List Byte) (a : ℕ)
    (run : Option (List ℕ × Store Byte)) : Prop :=
  ∃ starts mem', run = some (starts, mem') ∧ starts.Pairwise (· < ·) ∧
    (∀ t, t ∈ starts ↔ ∃ i n, t = a + i ∧ IsToken seps s i n) ∧
    (∀ i n, IsToken seps s i n → StringAt mem' (a + i) ((s.drop i).take n)) ∧
    ∀ x, mem' x ≠ mem x → ∃ k, x = a + k ∧ SepAt seps s k

/-! ## Runs -/

section

variable {mem : Store Byte} {a sep fuel : ℕ} {s seps : List Byte}

/-- INTERNAL: a call begins its token behind the separators in front.
SRCLINE: strtok.c:9 -/
theorem strtokAt_place {p : ℕ} (hsep : StringAt mem sep seps) (hsepFuel : seps.length < fuel)
    (hp : p ≤ s.length) (h : StringAt mem (a + p) (s.drop p)) (hfuel : s.length < fuel) :
    ∃ i, p ≤ i ∧ i ≤ s.length ∧ (∀ k, p ≤ k → k < i → SepAt seps s k) ∧ ¬ SepAt seps s i ∧
      strtokAt mem fuel sep (some (a + p)) none =
        some (tokenAt mem (seps.find? (· ∈ s.drop i)) (a + i) (s.drop i)) := by
  have hat := strtokAt_string hsep hsepFuel h (by rw [List.length_drop]; omega)
  obtain ⟨hskip, hstop⟩ := takeWhile_stops (· ∈ seps) (s.drop p)
  have hle := (List.takeWhile_prefix (l := s.drop p) (· ∈ seps)).length_le
  rw [List.length_drop] at hle
  rw [dropWhile_eq_drop, List.drop_drop, Nat.add_assoc] at hat
  refine ⟨p + ((s.drop p).takeWhile (· ∈ seps)).length, by omega, by omega, ?_, ?_, hat⟩
  · intro k hpk hk
    have hx : (s.drop p)[k - p]? = some s[k] := by
      rw [List.getElem?_drop, show p + (k - p) = k by omega]
      exact List.getElem?_eq_getElem (by omega)
    refine ⟨s[k], ?_, List.getElem?_eq_getElem (by omega)⟩
    simpa using hskip (k - p) s[k] (by omega) hx
  · rintro ⟨c, hc, hx⟩
    rw [← List.getElem?_drop] at hx
    simpa [hc] using hstop c hx

/-- INTERNAL: the cases of the token behind them.
SRCLINE: strtok.c:11-24, strpbrk.c:3-11 -/
theorem tokenAt_place (mem : Store Byte) (a : ℕ) {i : ℕ} {token : Token}
    (htoken : tokenAt mem (seps.find? (· ∈ s.drop i)) (a + i) (s.drop i) = token)
    (hi : i ≤ s.length) (hstart : ¬ SepAt seps s i) :
    (i = s.length ∧ token = ⟨none, none, mem⟩) ∨
    (i < s.length ∧ (∀ k, i ≤ k → ¬ SepAt seps s k) ∧ token = ⟨some (a + i), none, mem⟩) ∨
    ∃ e d, i < e ∧ d ∈ seps ∧ s[e]? = some d ∧ (∀ k, i ≤ k → k < e → s[k]? ≠ some d) ∧
      (∀ c ∈ seps, ∀ k, i ≤ k → s[k]? = some c → seps.idxOf d ≤ seps.idxOf c) ∧
      token = ⟨some (a + i), some (a + (e + 1)), mem.write (a + e) [0]⟩ := by
  have hmem : ∀ {c k}, i ≤ k → s[k]? = some c → c ∈ s.drop i := by
    intro c k hk hc
    refine List.mem_of_getElem? (i := k - i) ?_
    rw [List.getElem?_drop, show i + (k - i) = k by omega, hc]
  subst htoken
  unfold tokenAt
  by_cases hempty : s.drop i = []
  · left
    rw [if_pos hempty]
    rw [List.drop_eq_nil_iff] at hempty
    exact ⟨by omega, rfl⟩
  · right
    rw [if_neg hempty]
    cases hfind : seps.find? (· ∈ s.drop i) with
    | none =>
      left
      rw [List.drop_eq_nil_iff] at hempty
      refine ⟨by omega, ?_, rfl⟩
      rintro k hk ⟨c, hc, hx⟩
      rw [List.find?_eq_none] at hfind
      exact hfind c hc (by simpa using hmem hk hx)
    | some d =>
      right
      obtain ⟨hd, hdrop, hleast⟩ := find?_least hfind
      obtain ⟨hplace, hbefore⟩ := firstPlace hdrop
      rw [List.getElem?_drop] at hplace
      refine ⟨i + ((s.drop i).takeWhile (· != d)).length, d, ?_, hd, hplace, ?_, ?_, ?_⟩
      · by_contra hle
        rw [show i + ((s.drop i).takeWhile (· != d)).length = i by omega] at hplace
        exact hstart ⟨d, hd, hplace⟩
      · intro k hk hke hx
        refine hbefore (k - i) (by omega) ?_
        rw [List.getElem?_drop, show i + (k - i) = k by omega, hx]
      · exact fun c hc k hk hx => hleast c hc (hmem hk hx)
      · simp only [Nat.add_assoc]

/-- INTERNAL: **the calls take the spans of a scanner** that looks for one separator after the
other.
SRCLINE: strtok.c:3-27, strpbrk.c:3-11 -/
theorem strtokAll_cuts (hsepFuel : seps.length < fuel) (hfuel : s.length < fuel)
    (hout : sep + seps.length < a ∨ a + s.length < sep) (calls : ℕ) {p : ℕ} (hp : p ≤ s.length)
    (hcalls : s.length - p < calls) (hsep : StringAt mem sep seps)
    (h : StringAt mem (a + p) (s.drop p)) :
    ∃ ts mem', strtokAll fuel sep calls mem (some (a + p)) none =
        some (ts.map fun t => a + t.1, mem') ∧
      Cuts seps s p ts ∧ (∀ t ∈ ts, StringAt mem' (a + t.1) ((s.drop t.1).take t.2)) ∧
      ∀ x, mem' x ≠ mem x → ∃ k, p ≤ k ∧ x = a + k ∧ SepAt seps s k := by
  induction calls generalizing p mem with
  | zero => omega
  | succ calls ih =>
    obtain ⟨i, hpi, hi, hseps, hstart, hat⟩ := strtokAt_place hsep hsepFuel hp h hfuel
    obtain ⟨hend, htoken⟩ | ⟨hlt, hfree, htoken⟩ | ⟨e, d, hie, hd, hplace, hfirst, hleast, htoken⟩ :=
      tokenAt_place mem a rfl hi hstart
    · refine ⟨[], mem, ?_, .done fun k hk hlt => hseps k hk (by omega), ?_, ?_⟩
      · rw [strtokAll, hat, htoken]
        rfl
      · exact fun t ht => (List.not_mem_nil ht).elim
      · exact fun x hx => absurd rfl hx
    · obtain ⟨calls, rfl⟩ : ∃ n, calls = n + 1 := ⟨calls - 1, by omega⟩
      refine ⟨[(i, s.length - i)], mem, ?_, .last hpi hlt hseps hfree, ?_, ?_⟩
      · rw [strtokAll, hat, htoken]
        rfl
      · intro t ht
        rw [List.mem_singleton.mp ht, List.take_of_length_le (by rw [List.length_drop])]
        exact h.behind hpi hi
      · exact fun x hx => absurd rfl hx
    · have helt : e < s.length := (List.getElem?_eq_some_iff.mp hplace).1
      have hbyte : ∀ x, x ≠ a + e → mem.write (a + e) [0] x = mem x := fun x hx =>
        Store.write_of_notMem _ _ (by rw [List.length_singleton]; omega)
      have hsep' : StringAt (mem.write (a + e) [0]) sep seps :=
        hsep.congr fun y hy hy' => hbyte y (by omega)
      have hrest : StringAt (mem.write (a + e) [0]) (a + (e + 1)) (s.drop (e + 1)) :=
        (h.behind (by omega) (by omega)).congr fun y hy _ => hbyte y (by omega)
      obtain ⟨ts, mem', hrun, hcuts, hstrings, hsame⟩ := ih (by omega) (by omega) hsep' hrest
      refine ⟨(i, e - i) :: ts, mem', ?_,
        .cut hpi hie hseps hstart hd hplace hfirst hleast hcuts, ?_, ?_⟩
      · rw [strtokAll, hat, htoken]
        simp only [Option.bind_eq_bind, Option.bind_some, hrun]
        rfl
      · intro t ht
        rcases List.mem_cons.mp ht with rfl | ht
        · refine ((h.behind hpi hi).ended (by omega) (by omega)).congr fun y hy hy' => ?_
          rw [List.length_take, List.length_drop] at hy'
          by_contra hne
          obtain ⟨k, hk, heq, -⟩ := hsame y hne
          omega
        · exact hstrings t ht
      · intro x hx
        by_cases heq : x = a + e
        · exact ⟨e, by omega, heq, d, hd, hplace⟩
        · obtain ⟨k, hk, hxk, hat'⟩ := hsame x (by rw [hbyte x heq]; exact hx)
          exact ⟨k, by omega, hxk, hat'⟩

end

/-- INTERNAL: **calls that take the spans of a scanner return the tokens** exactly if none of the
spans has a separator. -/
theorem tokenizes_cuts {mem mem' : Store Byte} {seps s : List Byte} {a : ℕ} {ts : List (ℕ × ℕ)}
    (hcuts : Cuts seps s 0 ts)
    (hstrings : ∀ t ∈ ts, StringAt mem' (a + t.1) ((s.drop t.1).take t.2))
    (hsame : ∀ x, mem' x ≠ mem x → ∃ k, x = a + k ∧ SepAt seps s k) :
    Tokenizes mem seps s a (some (ts.map fun t => a + t.1, mem')) ↔ EndsFirst seps s := by
  rw [EndsFirst, ← hcuts.free_iff]
  constructor
  · rintro ⟨starts, mem'', hrun, -, hstarts, htokens, -⟩ t ht
    obtain ⟨rfl, rfl⟩ := Prod.mk.inj (Option.some.inj hrun)
    obtain ⟨i, n, heq, htoken⟩ := (hstarts (a + t.1)).mp (List.mem_map.mpr ⟨t, ht, rfl⟩)
    obtain rfl : t.1 = i := by omega
    -- One memory holds the string of the token and that of the span.
    have hlen := congrArg List.length ((hstrings t ht).unique (htokens _ _ htoken))
    have hfits := hcuts.fits t ht
    have hfits' := htoken.fits
    rw [List.length_take, List.length_take, List.length_drop, Nat.min_eq_left (by omega),
      Nat.min_eq_left (by omega)] at hlen
    rw [hlen]
    exact htoken.free
  · intro hfree
    have hmem := hcuts.mem_iff hfree (Or.inl rfl)
    refine ⟨_, _, rfl, ?_, fun t => ?_, fun i n htoken => ?_, hsame⟩
    · exact List.pairwise_map.mpr (hcuts.sorted.2.imp fun hlt => Nat.add_lt_add_left hlt a)
    · rw [List.mem_map]
      constructor
      · rintro ⟨⟨i, n⟩, ht, rfl⟩
        exact ⟨i, n, rfl, ((hmem i n).mp ht).2⟩
      · rintro ⟨i, n, rfl, htoken⟩
        exact ⟨(i, n), (hmem i n).mpr ⟨Nat.zero_le i, htoken⟩, rfl⟩
    · exact hstrings (i, n) ((hmem i n).mpr ⟨Nat.zero_le i, htoken⟩)

/-- **The calls of `strtok` return the tokens of a string** exactly if each separator that ends a
token comes in the set before all of those behind it in the string.  It is the first separator of
the set that ends a token, not the first one of the string.
SRCLINE: strtok.c:3-27, strpbrk.c:3-11, strchr.c:3-13 -/
theorem strtok_tokenizes_iff {mem : Store Byte} {seps s : List Byte} {a sep fuel : ℕ}
    (hs : StringAt mem a s) (hsep : StringAt mem sep seps)
    (hout : sep + seps.length < a ∨ a + s.length < sep) (hfuel : s.length < fuel)
    (hsepFuel : seps.length < fuel) (last : Option ℕ) :
    Tokenizes mem seps s a (strtokAll fuel sep fuel mem last (some a)) ↔ EndsFirst seps s := by
  have hstart : strtokAll fuel sep fuel mem last (some a) =
      strtokAll fuel sep fuel mem (some a) none := by
    cases fuel with
    | zero => rfl
    | succ fuel => rfl
  obtain ⟨ts, mem', hrun, hcuts, hstrings, hsame⟩ :=
    strtokAll_cuts hsepFuel hfuel hout fuel (Nat.zero_le s.length) (by omega) hsep hs
  rw [Nat.add_zero] at hrun
  rw [hstart, hrun]
  refine tokenizes_cuts hcuts hstrings fun x hx => ?_
  obtain ⟨k, -, hk⟩ := hsame x hx
  exact ⟨k, hk⟩

/-- The strings `a,b;c` and `;,` in memory. -/
def listBytes : Store Byte :=
  Store.write (Store.write (fun _ => 0) 0x100 [0x61, 0x2C, 0x62, 0x3B, 0x63]) 0x200 [0x3B, 0x2C]

/-- The comma stays in the first token of `a,b;c`, since the semicolon is looked for first. -/
theorem strtok_keeps_comma :
    ¬ Tokenizes listBytes [0x3B, 0x2C] [0x61, 0x2C, 0x62, 0x3B, 0x63] 0x100
      (strtokAll 9 0x200 9 listBytes none (some 0x100)) := by
  rintro ⟨starts, mem', hrun, -, hstarts, -⟩
  have hgot : (strtokAll 9 0x200 9 listBytes none (some 0x100)).map Prod.fst =
      some [0x100, 0x104] := by decide
  rw [hrun] at hgot
  obtain rfl : starts = [0x100, 0x104] := Option.some.inj hgot
  have htoken : IsToken [0x3B, 0x2C] ([0x61, 0x2C, 0x62, 0x3B, 0x63] : List Byte) 2 1 := by
    refine ⟨by decide, by decide, ?_, Or.inr ⟨0x2C, by decide, rfl⟩, Or.inr ⟨0x3B, by decide, rfl⟩⟩
    rintro k hk hk' ⟨c, hc, hx⟩
    obtain rfl : k = 2 := by omega
    rw [← Option.some.inj hx] at hc
    exact absurd hc (by decide)
  have hmem := (hstarts 0x102).mpr ⟨2, 1, rfl, htoken⟩
  exact absurd hmem (by decide)

/-- The strings `;a;;b` and `;` in memory. -/
def semicolonBytes : Store Byte :=
  Store.write (Store.write (fun _ => 0) 0x100 [0x3B, 0x61, 0x3B, 0x3B, 0x62]) 0x200 [0x3B]

/-- With the semicolon alone `;a;;b` is taken apart, though an earlier run was left inside it. -/
theorem strtok_tokenizes_semicolons :
    Tokenizes semicolonBytes [0x3B] [0x3B, 0x61, 0x3B, 0x3B, 0x62] 0x100
      (strtokAll 6 0x200 6 semicolonBytes (some 0x103) (some 0x100)) := by
  have hs : StringAt semicolonBytes 0x100 [0x3B, 0x61, 0x3B, 0x3B, 0x62] :=
    ⟨by decide, by decide, by decide⟩
  have hsep : StringAt semicolonBytes 0x200 [0x3B] := ⟨by decide, by decide, by decide⟩
  have hends : EndsFirst [0x3B] ([0x3B, 0x61, 0x3B, 0x3B, 0x62] : List Byte) := by
    intro i c j d _ _ hc _ _ hd _
    rw [List.mem_singleton.mp hc, List.mem_singleton.mp hd]
  exact (strtok_tokenizes_iff hs hsep (by decide) (by decide) (by decide) (some 0x103)).mpr hends

end LakeOS.Analysis
