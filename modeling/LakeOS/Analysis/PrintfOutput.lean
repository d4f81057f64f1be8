import Mathlib.Data.Nat.Digits.Defs
import Mathlib.Algebra.BigOperators.Group.List.Basic
import Mathlib.Algebra.Order.BigOperators.Group.List
import LakeOS.Library.StringAt
import LakeOS.Model.Printf

/-!
# What printf writes

A format is a list of ordinary characters and directives, and each directive takes its own
argument.  `printf` writes an ordinary character without counting it, and the same goes for
the sign of a number and for a pointer; a `%` at the end takes the terminator for a
directive.
-/

set_option autoImplicit false

namespace LakeOS.Analysis

open LakeOS.Library LakeOS.Model

/-! ## What a format stands for -/

/-- A piece of a format, with its argument. -/
inductive Piece where
  | ordinary (c : Byte)
  | char (i : ℤ)
  | string (s : CString)
  | number (i : ℤ)
  | pointer (p : ℕ)
  | other (c : Byte)
  /-- A `%` with nothing behind it. -/
  | trailing

/-- The directive of a character, and the arguments behind its own. -/
def directive (c : Byte) (args : List PrintArg) : Option (Piece × List PrintArg) :=
  if c = 0x63 then
    match args with
    | .int i :: args => some (.char i, args)
    | _ => none
  else if c = 0x73 then
    match args with
    | .str s :: args => some (.string s, args)
    | _ => none
  else if c = 0x64 ∨ c = 0x69 then
    match args with
    | .int i :: args => some (.number i, args)
    | _ => none
  else if c = 0x70 then
    match args with
    | .ptr p :: args => some (.pointer p, args)
    | _ => none
  else some (.other c, args)

/-- The pieces of a format; `none` if the arguments do not match it. -/
def pieces : CString → List PrintArg → Option (List Piece)
  | [], _ => some []
  | [x], _ => some [if x = percent then .trailing else .ordinary x]
  | x :: c :: rest, args =>
      if x = percent then do
        let next ← directive c args
        (pieces rest next.2).map (next.1 :: ·)
      else (pieces (c :: rest) args).map (.ordinary x :: ·)

/-- The decimal numeral of a number. -/
def decimal (n : ℕ) : List Byte :=
  if n = 0 then [0x30] else ((Nat.digits 10 n).map fun k => BitVec.ofNat 8 (0x30 + k)).reverse

/-- The standard rendering of a piece. -/
def Piece.rendering : Piece → List Byte
  | .ordinary c => [c]
  | .char i => [BitVec.ofInt 8 i]
  | .string s => s
  | .number i => if i < 0 then minusSign :: decimal i.natAbs else decimal i.natAbs
  | .pointer p => 0x30 :: 0x78 :: (List.range 8).reverse.map fun i => hexChar (p / 16 ^ i % 16)
  | .other c => [c]
  | .trailing => [percent]

/-- The integers among the arguments are of type `int`. -/
def ArgsFit (args : List PrintArg) : Prop :=
  ∀ i, PrintArg.int i ∈ args → -2 ^ 31 ≤ i ∧ i < 2 ^ 31

/-- `printf` ends, writes the rendering of the pieces, returns how many bytes it wrote, and
reads no byte behind the terminator of the format. -/
def PrintsFormat (mem : Store Byte) (format : ℕ) (fmt : CString) (args : List PrintArg)
    (ps : List Piece) : Prop :=
  ∃ fuel run, printf mem fuel format args = some run ∧
    run.output = ps.flatMap Piece.rendering ∧ run.bytesWritten = run.output.length ∧
    ∀ x ∈ run.reads, x ≤ format + fmt.length

/-- The pieces that `printf` writes and counts in full: directives but for those of pointers,
negative numbers and strings with a byte `0xFF` in front of another one. -/
def Piece.Counted : Piece → Prop
  | .ordinary _ => False
  | .char _ => True
  | .string s => 0xFF ∉ s.dropLast
  | .number i => 0 ≤ i
  | .pointer _ => False
  | .other _ => True
  | .trailing => False

/-! ## What is written -/

/-- What `printf` writes for a piece. -/
def Piece.written : Piece → List Byte
  | .ordinary c => [c]
  | .char i => [BitVec.ofInt 8 i]
  | .string s => print s
  | .number i => printint i
  | .pointer p => printptr p
  | .other c => [c]
  | .trailing => [0]

/-- How much it counts for it. -/
def Piece.counts : Piece → ℕ
  | .ordinary _ => 0
  | .char _ => 1
  | .string s => s.length
  | .number i => countDigits 10 i
  | .pointer _ => 0
  | .other _ => 1
  | .trailing => 1

theorem printptr_eq (p : ℕ) : printptr p = (Piece.pointer p).rendering := by
  have hnibble : ∀ i, (p >>> (i * 4)) &&& 0xF = p / 16 ^ i % 16 := by
    intro i
    have hmask := Nat.and_two_pow_sub_one_eq_mod (p >>> (i * 4)) 4
    have hpow : 2 ^ (i * 4) = 16 ^ i := by
      rw [Nat.mul_comm, Nat.pow_mul]
    rw [Nat.shiftRight_eq_div_pow, hpow] at hmask
    rw [Nat.shiftRight_eq_div_pow, hpow]
    exact hmask
  unfold printptr Piece.rendering
  simp only [hnibble]
  rfl

/-! ### Numbers -/

theorem printintDigits_eq (fuel n : ℕ) (hlt : n < 10 ^ fuel) (hfuel : fuel ≠ 0) :
    printintDigits fuel n =
      if n = 0 then [0x30] else (Nat.digits 10 n).map fun k => BitVec.ofNat 8 (0x30 + k) := by
  induction fuel generalizing n with
  | zero => exact absurd rfl hfuel
  | succ fuel ih =>
      have hdiv : (n : ℤ).tdiv 10 = (n / 10 : ℕ) := rfl
      have hmod : (n : ℤ).tmod 10 = (n % 10 : ℕ) := rfl
      have hdigit : BitVec.ofInt 8 (0x30 + ((n % 10 : ℕ) : ℤ)) =
          BitVec.ofNat 8 (0x30 + n % 10) := by
        rw [show (0x30 : ℤ) + ((n % 10 : ℕ) : ℤ) = ((0x30 + n % 10 : ℕ) : ℤ) by push_cast; rfl]
        exact BitVec.ofInt_natCast 8 _
      rw [printintDigits, hdiv, hmod, hdigit]
      by_cases hzero : n = 0
      · simp [hzero]
      · rw [if_neg hzero, Nat.digits_def' (by decide) (Nat.pos_of_ne_zero hzero), List.map_cons]
        congr 1
        by_cases hlast : n / 10 = 0
        · simp [hlast]
        · have hsmall : n / 10 < 10 ^ fuel := by
            rw [Nat.pow_succ] at hlt
            omega
          have hne : fuel ≠ 0 := by
            intro h0
            rw [h0] at hsmall
            omega
          rw [if_neg (by exact_mod_cast hlast), ih (n / 10) hsmall hne, if_neg hlast]

theorem countDigits_eq (fuel n : ℕ) (hlt : n < 10 ^ fuel) (hfuel : fuel ≠ 0) :
    countDigits fuel n = (printintDigits fuel n).length := by
  induction fuel generalizing n with
  | zero => exact absurd rfl hfuel
  | succ fuel ih =>
      have hdiv : (n : ℤ).tdiv 10 = (n / 10 : ℕ) := rfl
      rw [countDigits, printintDigits, List.length_cons, hdiv]
      by_cases hlast : n / 10 = 0
      · simp [hlast]
      · have hsmall : n / 10 < 10 ^ fuel := by
          rw [Nat.pow_succ] at hlt
          omega
        have hne : fuel ≠ 0 := by
          intro h0
          rw [h0] at hsmall
          omega
        have hcast : ¬ ((n / 10 : ℕ) : ℤ) = 0 := by exact_mod_cast hlast
        rw [if_neg hcast, if_neg hcast, ih (n / 10) hsmall hne]

theorem countDigits_neg (fuel : ℕ) (n : ℤ) : countDigits fuel (-n) = countDigits fuel n := by
  induction fuel generalizing n with
  | zero => rfl
  | succ fuel ih => simp [countDigits, Int.neg_tdiv, ih]

theorem decimal_eq {n : ℕ} (hn : n ≤ 2 ^ 31) : decimal n = (printintDigits 10 n).reverse := by
  rw [printintDigits_eq 10 n (by omega) (by decide), decimal]
  split
  · rfl
  · rfl

/-- INTERNAL: a number that is not negative is written and counted as it is. -/
theorem number_nonneg {n : ℕ} (hn : n < 2 ^ 31) :
    (Piece.number n).written = (Piece.number n).rendering ∧
      (Piece.number n).counts = (Piece.number n).written.length := by
  have hnot : ¬ (n : ℤ) < 0 := by omega
  have hwritten : (Piece.number n).written = (printintDigits 10 n).reverse := by
    unfold Piece.written printint
    simp only [if_neg hnot]
  constructor
  · rw [hwritten]
    unfold Piece.rendering
    simp only [if_neg hnot, Int.natAbs_natCast]
    exact (decimal_eq hn.le).symm
  · rw [hwritten, List.length_reverse]
    exact countDigits_eq 10 n (by omega) (by decide)

/-- INTERNAL: the sign of a negative number is not counted.  Its digits are wrong if its
negative does not fit an `int`. -/
theorem number_neg {n : ℕ} (hpos : 0 < n) (hn : n ≤ 2 ^ 31) :
    (Piece.number (-n)).written.length = (Piece.number (-n)).rendering.length ∧
      (Piece.number (-n)).counts + 1 = (Piece.number (-n)).rendering.length := by
  have hneg : -(n : ℤ) < 0 := by omega
  have hrendering : (Piece.number (-n)).rendering =
      minusSign :: (printintDigits 10 n).reverse := by
    unfold Piece.rendering
    simp only [if_pos hneg, Int.natAbs_neg, Int.natAbs_natCast]
    rw [decimal_eq hn]
  constructor
  · by_cases hmin : n = 2 ^ 31
    · rw [hmin]
      decide +kernel
    · have hwrap : asInt (-(-(n : ℤ))) = n := by
        rw [neg_neg]
        exact Int.bmod_eq_of_le (by omega) (by omega)
      rw [hrendering]
      unfold Piece.written printint
      simp only [if_pos hneg, hwrap]
  · rw [hrendering, List.length_cons, List.length_reverse]
    unfold Piece.counts
    dsimp only
    rw [countDigits_neg, countDigits_eq 10 n (by omega) (by decide)]

/-! ### Strings -/

theorem print_length_le (s : CString) : (print s).length ≤ s.length := by
  induction s with
  | nil => exact le_rfl
  | cons c s ih =>
      rw [print]
      split
      · simp
      · simpa using ih

theorem print_eq_iff (s : CString) : print s = s ↔ 0xFF ∉ s.dropLast := by
  induction s with
  | nil => simp [print]
  | cons c s ih =>
      rw [print]
      cases s with
      | nil => simp [print]
      | cons a s =>
          rw [List.dropLast_cons_cons, List.mem_cons]
          by_cases hc : c = 0xFF
          · simp [hc]
          · rw [if_neg hc, List.cons.injEq, ih]
            have hc' : ¬ (0xFF : Byte) = c := fun h => hc h.symm
            rw [not_or, and_iff_right hc']
            simp

/-! ### Pieces -/

/-- The number of a piece is of type `int`. -/
def Piece.Fits : Piece → Prop
  | .number i => -2 ^ 31 ≤ i ∧ i < 2 ^ 31
  | _ => True

/-- INTERNAL: no piece is written longer than it should be. -/
theorem Piece.written_length_le {p : Piece} (hfits : p.Fits) :
    p.written.length ≤ p.rendering.length := by
  cases p with
  | string s => exact print_length_le s
  | pointer p => exact (congrArg List.length (printptr_eq p)).le
  | number i =>
      obtain ⟨hlo, hhi⟩ := hfits
      by_cases hneg : i < 0
      · obtain ⟨n, hn⟩ := Int.exists_eq_neg_ofNat hneg.le
        subst hn
        exact (number_neg (by omega) (by omega)).1.le
      · obtain ⟨n, hn⟩ := Int.eq_ofNat_of_zero_le (not_lt.mp hneg)
        subst hn
        exact (congrArg List.length (number_nonneg (by omega)).1).le
  | _ => exact le_rfl

/-- INTERNAL: **a piece is written and counted in full** under its condition. -/
theorem Piece.counted_iff {p : Piece} (hfits : p.Fits) (hne : p ≠ .trailing) :
    p.Counted ↔ p.written = p.rendering ∧ p.counts = p.written.length := by
  cases p with
  | ordinary c => simp [Counted, written, rendering, counts]
  | char i => simp [Counted, written, rendering, counts]
  | other c => simp [Counted, written, rendering, counts]
  | trailing => exact absurd rfl hne
  | pointer p => simp [Counted, written, counts, printptr]
  | string s =>
      have hiff : (Piece.string s).Counted ↔ print s = s := (print_eq_iff s).symm
      rw [hiff]
      constructor
      · intro heq
        exact ⟨heq, (congrArg List.length heq).symm⟩
      · exact And.left
  | number i =>
      obtain ⟨hlo, hhi⟩ := hfits
      by_cases hneg : i < 0
      · obtain ⟨n, hn⟩ := Int.exists_eq_neg_ofNat hneg.le
        subst hn
        obtain ⟨hlen, hcounts⟩ := number_neg (n := n) (by omega) (by omega)
        have hnot : ¬ (Piece.number (-n)).Counted := by
          unfold Counted
          omega
        constructor
        · intro hcounted
          exact absurd hcounted hnot
        · rintro ⟨-, heq⟩
          omega
      · obtain ⟨n, hn⟩ := Int.eq_ofNat_of_zero_le (not_lt.mp hneg)
        subst hn
        have hcounted : (Piece.number n).Counted := Int.natCast_nonneg n
        exact iff_of_true hcounted (number_nonneg (by omega))

/-- INTERNAL: a piece that is written right is not counted longer than it is. -/
theorem Piece.counts_le {p : Piece} (hfits : p.Fits) (hwritten : p.written = p.rendering) :
    p.counts ≤ p.written.length := by
  cases p with
  | string s =>
      unfold written rendering at hwritten
      unfold counts written
      rw [hwritten]
  | number i =>
      obtain ⟨hlo, hhi⟩ := hfits
      by_cases hneg : i < 0
      · obtain ⟨n, hn⟩ := Int.exists_eq_neg_ofNat hneg.le
        subst hn
        have hcounts := (number_neg (n := n) (by omega) (by omega)).2
        rw [hwritten]
        omega
      · obtain ⟨n, hn⟩ := Int.eq_ofNat_of_zero_le (not_lt.mp hneg)
        subst hn
        exact (number_nonneg (by omega)).2.le
  | _ => simp [counts, written]

/-! ## Runs -/

section

variable {mem : Store Byte} {format : ℕ} {fmt : CString} {args : List PrintArg}
  {ps : List Piece}

/-- INTERNAL: the code takes the directives that the format has. -/
theorem printfDirective_eq (c : Byte) (args : List PrintArg) :
    printfDirective c args = (directive c args).map fun next =>
      ((next.1.written, next.1.counts), next.2) := by
  unfold printfDirective directive
  split
  · cases args with
    | nil => rfl
    | cons arg args => cases arg <;> rfl
  · split
    · cases args with
      | nil => rfl
      | cons arg args => cases arg <;> rfl
    · split
      · cases args with
        | nil => rfl
        | cons arg args => cases arg <;> rfl
      · split
        · cases args with
          | nil => rfl
          | cons arg args => cases arg <;> rfl
        · rfl

/-- INTERNAL: a directive takes an argument of its kind, or none. -/
theorem directive_cases {c : Byte} {next : Piece × List PrintArg}
    (h : directive c args = some next) :
    next = (.other c, args) ∨ ∃ arg, args = arg :: next.2 ∧
      ((∃ i, arg = .int i ∧ (next.1 = .char i ∨ next.1 = .number i)) ∨
        (∃ s, next.1 = .string s) ∨ ∃ p, next.1 = .pointer p) := by
  unfold directive at h
  split at h
  · cases args with
    | nil => cases h
    | cons arg args =>
        cases arg <;> cases h
        exact .inr ⟨_, rfl, .inl ⟨_, rfl, .inl rfl⟩⟩
  · split at h
    · cases args with
      | nil => cases h
      | cons arg args =>
          cases arg <;> cases h
          exact .inr ⟨_, rfl, .inr (.inl ⟨_, rfl⟩)⟩
    · split at h
      · cases args with
        | nil => cases h
        | cons arg args =>
            cases arg <;> cases h
            exact .inr ⟨_, rfl, .inl ⟨_, rfl, .inr rfl⟩⟩
      · split at h
        · cases args with
          | nil => cases h
          | cons arg args =>
              cases arg <;> cases h
              exact .inr ⟨_, rfl, .inr (.inr ⟨_, rfl⟩)⟩
        · cases h
          exact .inl rfl

theorem directive_ne_trailing {c : Byte} {next : Piece × List PrintArg}
    (h : directive c args = some next) : next.1 ≠ .trailing := by
  obtain rfl | ⟨arg, -, ⟨i, -, hp | hp⟩ | ⟨s, hp⟩ | ⟨p, hp⟩⟩ := directive_cases h
  · simp
  · simp [hp]
  · simp [hp]
  · simp [hp]
  · simp [hp]

/-! ### One piece -/

theorem pieces_directive {c : Byte} {rest : CString}
    (hps : pieces (percent :: c :: rest) args = some ps) :
    ∃ next qs, directive c args = some next ∧ pieces rest next.2 = some qs ∧
      ps = next.1 :: qs := by
  rw [pieces, if_pos rfl] at hps
  obtain ⟨next, hdir, hrest⟩ := Option.bind_eq_some_iff.mp hps
  obtain ⟨qs, hqs, heq⟩ := Option.map_eq_some_iff.mp hrest
  exact ⟨next, qs, hdir, hqs, heq.symm⟩

theorem pieces_ordinary {x c : Byte} {rest : CString} (hord : x ≠ percent)
    (hps : pieces (x :: c :: rest) args = some ps) :
    ∃ qs, pieces (c :: rest) args = some qs ∧ ps = .ordinary x :: qs := by
  rw [pieces, if_neg hord] at hps
  obtain ⟨qs, hqs, heq⟩ := Option.map_eq_some_iff.mp hps
  exact ⟨qs, hqs, heq.symm⟩

/-- INTERNAL: the loop at a directive. -/
theorem printfLoop_directive {c : Byte} {rest : CString} {next : Piece × List PrintArg}
    (h : StringAt mem format (percent :: c :: rest)) (hdir : directive c args = some next)
    (fuel : ℕ) (run : PrintfRun) :
    printfLoop mem (fuel + 1) format args run =
      printfLoop mem fuel (format + 2) next.2
        (run.emit next.1.written next.1.counts [format, format + 1]) := by
  obtain ⟨hx, hne, hrest⟩ := h.cons
  obtain ⟨hc, -, -⟩ := hrest.cons
  rw [printfLoop, hx, if_neg hne, if_pos rfl, hc, printfDirective_eq, hdir]
  rfl

/-- INTERNAL: the loop at an ordinary character. -/
theorem printfLoop_ordinary {x : Byte} {rest : CString} (h : StringAt mem format (x :: rest))
    (hord : x ≠ percent) (fuel : ℕ) (run : PrintfRun) :
    printfLoop mem (fuel + 1) format args run =
      printfLoop mem fuel (format + 1) args (run.emit [x] 0 [format]) := by
  obtain ⟨hx, hne, -⟩ := h.cons
  rw [printfLoop, hx, if_neg hne, if_neg hord]

/-! ### All pieces -/

/-- What a run adds for pieces that are not trailing. -/
def runAfter (run : PrintfRun) (ps : List Piece) (reads : List ℕ) : PrintfRun where
  output := run.output ++ ps.flatMap Piece.written
  bytesWritten := asInt (run.bytesWritten + ((ps.map Piece.counts).sum : ℕ))
  reads := run.reads ++ reads

theorem asInt_add (n : ℤ) (k : ℤ) : asInt (asInt n + k) = asInt (n + k) := Int.bmod_add_bmod

/-- INTERNAL: a piece, and the pieces behind it. -/
theorem emit_runAfter (run : PrintfRun) (p : Piece) (ps : List Piece)
    (addresses reads : List ℕ) :
    runAfter (run.emit p.written p.counts addresses) ps reads =
      runAfter run (p :: ps) (addresses ++ reads) := by
  unfold PrintfRun.emit runAfter
  simp only [List.flatMap_cons, List.append_assoc, asInt_add, List.map_cons, List.sum_cons,
    Nat.cast_add, Int.add_assoc]

/-- INTERNAL: **a run goes from piece to piece** and reads no byte behind the terminator. -/
theorem printfLoop_pieces (h : StringAt mem format fmt) (hps : pieces fmt args = some ps)
    (htrail : .trailing ∉ ps) :
    ∃ reads : List ℕ, (∀ x ∈ reads, x ≤ format + fmt.length) ∧
      ∀ fuel run, printfLoop mem fuel format args run =
        if ps.length < fuel then some (runAfter run ps reads) else none := by
  induction fmt, args using pieces.induct generalizing format ps with
  | case1 args =>
      cases hps
      have hend : mem format = 0 := h.terminator
      refine ⟨[format], by simp, ?_⟩
      intro fuel run
      cases fuel with
      | zero => rfl
      | succ fuel =>
          rw [printfLoop, if_pos hend, if_pos (by simp)]
          simp [PrintfRun.emit, runAfter]
  | case2 x args =>
      obtain ⟨hx, hne, hrest⟩ := h.cons
      have hend : mem (format + 1) = 0 := hrest.terminator
      rw [pieces] at hps
      cases hps
      have hord : x ≠ percent := by
        intro heq
        simp [heq] at htrail
      rw [if_neg hord]
      refine ⟨[format, format + 1], by simp, ?_⟩
      intro fuel run
      cases fuel with
      | zero => rfl
      | succ fuel =>
          rw [printfLoop, hx, if_neg hne, if_neg hord]
          cases fuel with
          | zero => simp [printfLoop]
          | succ fuel =>
              rw [printfLoop, if_pos hend, if_pos (by simp)]
              have hafter := emit_runAfter run (.ordinary x) [] [format] [format + 1]
              rw [show [format, format + 1] = [format] ++ [format + 1] from rfl, ← hafter]
              simp [PrintfRun.emit, runAfter, Piece.written, Piece.counts]
  | case3 c rest args ih =>
      obtain ⟨next, qs, hdir, hqs, rfl⟩ := pieces_directive hps
      have hrest : StringAt mem (format + 2) rest := h.cons.2.2.cons.2.2
      have htrail' : .trailing ∉ qs := fun hmem => htrail (List.mem_cons_of_mem _ hmem)
      obtain ⟨reads, hreads, hrun⟩ := ih next hrest hqs htrail'
      have hlen : (percent :: c :: rest).length = rest.length + 2 := rfl
      refine ⟨[format, format + 1] ++ reads, List.forall_mem_append.mpr ⟨?_, ?_⟩, ?_⟩
      · simp
      · intro y hy
        have hle := hreads y hy
        omega
      · intro fuel run
        cases fuel with
        | zero => rfl
        | succ fuel =>
            rw [printfLoop_directive h hdir, hrun, emit_runAfter]
            simp
  | case4 x c rest args hord ih =>
      obtain ⟨qs, hqs, rfl⟩ := pieces_ordinary hord hps
      have htrail' : .trailing ∉ qs := fun hmem => htrail (List.mem_cons_of_mem _ hmem)
      obtain ⟨reads, hreads, hrun⟩ := ih h.cons.2.2 hqs htrail'
      have hlen : (x :: c :: rest).length = (c :: rest).length + 1 := rfl
      refine ⟨[format] ++ reads, List.forall_mem_append.mpr ⟨?_, ?_⟩, ?_⟩
      · simp
      · intro y hy
        have hle := hreads y hy
        omega
      · intro fuel run
        cases fuel with
        | zero => rfl
        | succ fuel =>
            rw [printfLoop_ordinary h hord, hrun]
            have hafter := emit_runAfter run (.ordinary x) qs [format] reads
            rw [← hafter]
            simp [Piece.written, Piece.counts]

/-- INTERNAL: what has been read stays read. -/
theorem printfLoop_reads {fuel : ℕ} {run r : PrintfRun}
    (hrun : printfLoop mem fuel format args run = some r) :
    format ∈ r.reads ∧ ∀ x ∈ run.reads, x ∈ r.reads := by
  induction fuel generalizing format args run with
  | zero => cases hrun
  | succ fuel ih =>
      rw [printfLoop] at hrun
      split at hrun
      · cases hrun
        simp +contextual [PrintfRun.emit]
      · split at hrun
        · cases hdir : printfDirective (mem (format + 1)) args with
          | none =>
              rw [hdir] at hrun
              cases hrun
          | some next =>
              rw [hdir] at hrun
              simp only [Option.bind_eq_bind, Option.bind_some] at hrun
              have hkeep := (ih hrun).2
              simp only [PrintfRun.emit, List.mem_append] at hkeep
              exact ⟨hkeep _ (.inr (by simp)), fun x hx => hkeep x (.inl hx)⟩
        · have hkeep := (ih hrun).2
          simp only [PrintfRun.emit, List.mem_append] at hkeep
          exact ⟨hkeep _ (.inr (by simp)), fun x hx => hkeep x (.inl hx)⟩

/-- INTERNAL: a `%` at the end takes the run behind the terminator. -/
theorem printfLoop_trailing (h : StringAt mem format fmt) (hps : pieces fmt args = some ps)
    (htrail : .trailing ∈ ps) {fuel : ℕ} {run r : PrintfRun}
    (hrun : printfLoop mem fuel format args run = some r) :
    format + fmt.length + 1 ∈ r.reads := by
  induction fmt, args using pieces.induct generalizing format ps fuel run with
  | case1 args =>
      cases hps
      simp at htrail
  | case2 x args =>
      obtain ⟨hx, hne, hrest⟩ := h.cons
      have hend : mem (format + 1) = 0 := hrest.terminator
      rw [pieces] at hps
      cases hps
      have hpercent : x = percent := by
        by_contra hord
        rw [if_neg hord] at htrail
        simp at htrail
      cases fuel with
      | zero => cases hrun
      | succ fuel =>
          rw [printfLoop, hx, if_neg hne, if_pos hpercent, hend] at hrun
          exact (printfLoop_reads hrun).1
  | case3 c rest args ih =>
      obtain ⟨next, qs, hdir, hqs, rfl⟩ := pieces_directive hps
      have hrest : StringAt mem (format + 2) rest := h.cons.2.2.cons.2.2
      have htrail' : .trailing ∈ qs := by
        rcases List.mem_cons.mp htrail with heq | hmem
        · exact absurd heq.symm (directive_ne_trailing hdir)
        · exact hmem
      cases fuel with
      | zero => cases hrun
      | succ fuel =>
          rw [printfLoop_directive h hdir] at hrun
          have hmem := ih next hrest hqs htrail' hrun
          rw [List.length_cons, List.length_cons,
            show format + (rest.length + 1 + 1) + 1 = format + 2 + rest.length + 1 by omega]
          exact hmem
  | case4 x c rest args hord ih =>
      obtain ⟨qs, hqs, rfl⟩ := pieces_ordinary hord hps
      have htrail' : .trailing ∈ qs := by
        rcases List.mem_cons.mp htrail with heq | hmem
        · cases heq
        · exact hmem
      cases fuel with
      | zero => cases hrun
      | succ fuel =>
          rw [printfLoop_ordinary h hord] at hrun
          have hmem := ih h.cons.2.2 hqs htrail' hrun
          rw [List.length_cons,
            show format + ((c :: rest).length + 1) + 1 =
              format + 1 + (c :: rest).length + 1 by omega]
          exact hmem

/-- INTERNAL: the numbers among the pieces come from the arguments. -/
theorem directive_fits {c : Byte} {next : Piece × List PrintArg} (hargs : ArgsFit args)
    (h : directive c args = some next) : next.1.Fits ∧ ArgsFit next.2 := by
  obtain rfl | ⟨arg, rfl, hkind⟩ := directive_cases h
  · exact ⟨trivial, hargs⟩
  · refine ⟨?_, fun i hi => hargs i (List.mem_cons_of_mem _ hi)⟩
    obtain ⟨i, rfl, hp | hp⟩ | ⟨s, hp⟩ | ⟨p, hp⟩ := hkind
    · rw [hp]
      trivial
    · rw [hp]
      exact hargs i List.mem_cons_self
    · rw [hp]
      trivial
    · rw [hp]
      trivial

theorem pieces_fit (hargs : ArgsFit args) (hps : pieces fmt args = some ps) :
    ∀ p ∈ ps, p.Fits := by
  induction fmt, args using pieces.induct generalizing ps with
  | case1 args =>
      cases hps
      simp
  | case2 x args =>
      cases hps
      intro p hp
      rw [List.mem_singleton.mp hp]
      split
      · trivial
      · trivial
  | case3 c rest args ih =>
      obtain ⟨next, qs, hdir, hqs, rfl⟩ := pieces_directive hps
      obtain ⟨hfits, hrest⟩ := directive_fits hargs hdir
      intro p hp
      rcases List.mem_cons.mp hp with rfl | hp
      · exact hfits
      · exact ih next hrest hqs p hp
  | case4 x c rest args hord ih =>
      obtain ⟨qs, hqs, rfl⟩ := pieces_ordinary hord hps
      intro p hp
      rcases List.mem_cons.mp hp with rfl | hp
      · trivial
      · exact ih hargs hqs p hp

end

/-! ## When the output is right -/

/-- INTERNAL: pieces that are no longer than others, and give the same text, are the same. -/
theorem flatMap_eq_pointwise {α β : Type} {f g : α → List β} {l : List α}
    (hle : ∀ a ∈ l, (f a).length ≤ (g a).length) (heq : l.flatMap f = l.flatMap g) :
    ∀ a ∈ l, f a = g a := by
  induction l with
  | nil => simp
  | cons a l ih =>
      have hrest : ∀ b ∈ l, (f b).length ≤ (g b).length :=
        fun b hb => hle b (List.mem_cons_of_mem _ hb)
      have hfirst := hle a List.mem_cons_self
      have htotal : (l.flatMap f).length ≤ (l.flatMap g).length := by
        rw [List.length_flatMap, List.length_flatMap]
        exact List.sum_le_sum hrest
      rw [List.flatMap_cons, List.flatMap_cons] at heq
      have hlen := congrArg List.length heq
      rw [List.length_append, List.length_append] at hlen
      obtain ⟨hhead, htail⟩ := List.append_inj heq (by omega)
      intro b hb
      rcases List.mem_cons.mp hb with rfl | hb
      · exact hhead
      · exact ih hrest htail b hb

/-- INTERNAL: numbers that are no larger than others, and have the same sum, are the same. -/
theorem sum_eq_pointwise {α : Type} {f g : α → ℕ} {l : List α} (hle : ∀ a ∈ l, f a ≤ g a)
    (heq : (l.map f).sum = (l.map g).sum) : ∀ a ∈ l, f a = g a := by
  induction l with
  | nil => simp
  | cons a l ih =>
      have hrest : ∀ b ∈ l, f b ≤ g b := fun b hb => hle b (List.mem_cons_of_mem _ hb)
      have hfirst := hle a List.mem_cons_self
      have htotal := List.sum_le_sum hrest
      rw [List.map_cons, List.sum_cons, List.map_cons, List.sum_cons] at heq
      intro b hb
      rcases List.mem_cons.mp hb with rfl | hb
      · omega
      · exact ih hrest (by omega) b hb

/-- INTERNAL: the sum of what is counted, as an `int`. -/
theorem asInt_eq_iff {n k : ℕ} (hle : n ≤ k) :
    asInt ((0 : ℤ) + (n : ℤ)) = (k : ℤ) ↔ n = k ∧ k < 2 ^ 31 := by
  rw [Int.zero_add]
  unfold asInt
  constructor
  · intro heq
    have hlt := Int.bmod_lt (x := (n : ℤ)) (m := 2 ^ 32) (by decide)
    rw [heq] at hlt
    have hsmall : k < 2 ^ 31 := by
      have hbound : (((2 ^ 32 : ℕ) : ℤ) + 1) / 2 = 2 ^ 31 := by norm_num
      rw [hbound] at hlt
      exact_mod_cast hlt
    have hself : Int.bmod (n : ℤ) (2 ^ 32) = n := Int.bmod_eq_of_le (by omega) (by omega)
    rw [hself] at heq
    exact ⟨by exact_mod_cast heq, hsmall⟩
  · rintro ⟨rfl, hlt⟩
    exact Int.bmod_eq_of_le (by omega) (by omega)

/-- **`printf` is right** for formats of directives alone, whose numbers are not negative and
whose text can be counted, and for no others.
SRCLINE: printf.c:68-132, printf.c:9-65 -/
theorem printf_iff {mem : Store Byte} {format : ℕ} {fmt : CString} {args : List PrintArg}
    {ps : List Piece} (h : StringAt mem format fmt) (hargs : ArgsFit args)
    (hps : pieces fmt args = some ps) :
    PrintsFormat mem format fmt args ps ↔
      (∀ p ∈ ps, p.Counted) ∧ (ps.flatMap Piece.rendering).length < 2 ^ 31 := by
  have hfit := pieces_fit hargs hps
  by_cases htrail : .trailing ∈ ps
  · constructor
    · rintro ⟨fuel, run, hrun, -, -, hreads⟩
      have hbehind := hreads _ (printfLoop_trailing h hps htrail hrun)
      omega
    · rintro ⟨hcounted, -⟩
      exact (hcounted _ htrail).elim
  · have hiff : ∀ p ∈ ps, p.Counted ↔ p.written = p.rendering ∧ p.counts = p.written.length :=
      fun p hp => p.counted_iff (hfit p hp) fun heq => htrail (heq ▸ hp)
    obtain ⟨reads, hreads, hloop⟩ := printfLoop_pieces h hps htrail
    constructor
    · rintro ⟨fuel, run, hrun, houtput, hreturn, -⟩
      rw [printf, hloop] at hrun
      split at hrun
      · cases hrun
        have htext : ps.flatMap Piece.written = ps.flatMap Piece.rendering := by
          simpa [runAfter] using houtput
        have hwritten := flatMap_eq_pointwise (fun p hp => p.written_length_le (hfit p hp)) htext
        have hcounts : ∀ p ∈ ps, p.counts ≤ p.written.length :=
          fun p hp => p.counts_le (hfit p hp) (hwritten p hp)
        have hsum : (ps.flatMap Piece.written).length =
            (ps.map fun p => p.written.length).sum := List.length_flatMap
        have hle : (ps.map Piece.counts).sum ≤ (ps.flatMap Piece.written).length := by
          rw [hsum]
          exact List.sum_le_sum hcounts
        have hreturn' : asInt ((0 : ℤ) + ((ps.map Piece.counts).sum : ℕ)) =
            ((ps.flatMap Piece.written).length : ℤ) := by
          simpa [runAfter] using hreturn
        obtain ⟨heq, hlt⟩ := (asInt_eq_iff hle).mp hreturn'
        rw [hsum] at heq
        have hall := sum_eq_pointwise hcounts heq
        rw [htext] at hlt
        exact ⟨fun p hp => (hiff p hp).mpr ⟨hwritten p hp, hall p hp⟩, hlt⟩
      · cases hrun
    · rintro ⟨hcounted, hlt⟩
      have hboth := fun p hp => (hiff p hp).mp (hcounted p hp)
      have htext : ps.flatMap Piece.written = ps.flatMap Piece.rendering :=
        List.flatMap_congr fun p hp => (hboth p hp).1
      have hsum : (ps.map Piece.counts).sum = (ps.flatMap Piece.written).length := by
        rw [List.length_flatMap]
        congr 1
        exact List.map_congr_left fun p hp => (hboth p hp).2
      refine ⟨ps.length + 1, runAfter ⟨[], 0, []⟩ ps reads, ?_, ?_, ?_, ?_⟩
      · rw [printf, hloop, if_pos (Nat.lt_succ_self _)]
      · simpa [runAfter] using htext
      · have hreturn := (asInt_eq_iff hsum.le).mpr ⟨hsum, by rw [htext]; exact hlt⟩
        simpa [runAfter] using hreturn
      · simpa [runAfter] using hreads

/-- The format `%d%%` in memory. -/
def percentFormat : Store Byte := Store.write (fun _ => 0) 0x1000 [0x25, 0x64, 0x25, 0x25]

theorem percentFormat_at : StringAt percentFormat 0x1000 [0x25, 0x64, 0x25, 0x25] where
  bytes := by decide
  nonzero := by decide
  terminator := by decide

/-- It prints a percentage. -/
theorem printf_percent :
    PrintsFormat percentFormat 0x1000 [0x25, 0x64, 0x25, 0x25] [.int 75]
        [.number 75, .other 0x25] ↔
      (∀ p ∈ [Piece.number 75, .other 0x25], p.Counted) ∧
        ([Piece.number 75, .other 0x25].flatMap Piece.rendering).length < 2 ^ 31 :=
  printf_iff percentFormat_at (by simp [ArgsFit]) rfl

/-- The format `a` in memory. -/
def plainFormat : Store Byte := Store.write (fun _ => 0) 0x1000 [0x61]

theorem plainFormat_at : StringAt plainFormat 0x1000 [0x61] where
  bytes := by decide
  nonzero := by decide
  terminator := by decide

/-- For a format of one ordinary character `0` is returned. -/
theorem printf_plain_not_counted :
    StringAt plainFormat 0x1000 [0x61] ∧ pieces [0x61] [] = some [.ordinary 0x61] ∧
      (printf plainFormat 2 0x1000 []).map PrintfRun.bytesWritten = some 0 ∧
      ¬ PrintsFormat plainFormat 0x1000 [0x61] [] [.ordinary 0x61] := by
  refine ⟨plainFormat_at, rfl, by decide, ?_⟩
  obtain ⟨reads, -, hloop⟩ := printfLoop_pieces plainFormat_at
    (show pieces [0x61] [] = some [.ordinary 0x61] from rfl) (by simp)
  rintro ⟨fuel, run, hrun, -, hreturn, -⟩
  rw [printf, hloop] at hrun
  split at hrun
  · cases hrun
    have hzero : asInt 0 = 0 := by decide
    simp [runAfter, Piece.counts, Piece.written, hzero] at hreturn
  · cases hrun

end LakeOS.Analysis
